import Mathlib.Data.List.Flatten
import DeclLang.Proofs.BalancedScopes
import DeclLang.Proofs.Moments

/-!
# The moments at which scopes change

The tour that resolves references comes to a node when it enters and when it leaves it.  Where it
goes depends on the tree alone, so what happened before a node was entered is the beginning of a
list of moments, whether the tour stops at that node or goes on.

**Input.**  A tree, a namespace, and perhaps a node at which the tour stops.

**Construction.**  `Scope.moments` lists the moments of the tour, and `Scope.walk` goes through them
until the focus is entered.  `Scope.tour_eq_walk`: this is the tour.

**Results.**
* `Node.mem_exposed_iff`: the tour enters the nodes that are not below a member expression, in
  preorder (`Scope.entered_moments`).
* `Scope.build_run`, `Scope.build_run_focus`: what is resolved without a focus comes from all
  moments, and what is resolved with a focus from the moments before it is entered.
-/

namespace DeclLang

open Inference (Moment)

/-- The node that is entered at a moment. -/
def Inference.Moment.entered? : Moment → Option Node
  | .entering node => some node
  | .leaving _ => none

/-- Where a part is cut at an element that its whole has once, its pieces are parts of the pieces of
the whole. -/
theorem sublist_of_split {α : Type} {before after earlier later : List α} {x : α}
    (part : (before ++ x :: after).Sublist (earlier ++ x :: later))
    (distinct : (earlier ++ x :: later).Nodup) :
    before.Sublist earlier ∧ after.Sublist later := by
  obtain ⟨left, right, whole, first, second⟩ := List.append_sublist_iff.1 part
  obtain ⟨middle, rest, rfl, mem, third⟩ := List.cons_sublist_iff.1 second
  obtain ⟨start, stop, rfl⟩ := List.append_of_mem mem
  have split : earlier ++ x :: later = (left ++ start) ++ x :: (stop ++ rest) := by
    rw [whole]
    simp
  rw [List.nodup_middle, List.nodup_cons, List.mem_append, not_or] at distinct
  obtain ⟨rfl, -, rfl⟩ :=
    (List.append_cons_inj_of_notMem distinct.1.1 distinct.1.2).1 split
  exact ⟨first.trans (List.sublist_append_left _ _), third.trans (List.sublist_append_right _ _)⟩

namespace Node

/-- The nodes of the tree that are not below a member expression, in preorder. -/
def exposed (node : Node) : List Node :=
  node :: if node.isMember then [] else
    node.children.attach.flatMap fun ⟨child, _⟩ => exposed child
termination_by sizeOf node
decreasing_by exact sizeOf_lt_of_mem_children ‹_›

variable {root node : Node}

theorem exposed_eq (node : Node) :
    node.exposed = node :: if node.isMember then [] else node.children.flatMap exposed := by
  rw [exposed]
  simp [List.flatMap_subtype]

theorem exposed_sublist (node : Node) : node.exposed.Sublist node.preorder := by
  induction node using children_induction with
  | step node ih =>
    rw [exposed_eq, preorder_eq]
    refine List.Sublist.cons_cons node ?_
    split
    · exact List.nil_sublist _
    · exact List.Sublist.flatMap_right _ ih

theorem mem_exposed_cases (mem : node ∈ root.exposed) :
    node = root ∨ root.isMember = false ∧ ∃ child ∈ root.children, node ∈ child.exposed := by
  rw [exposed_eq, List.mem_cons] at mem
  refine mem.imp_right fun below => ?_
  split at below
  · cases below
  · rename_i visited
    exact ⟨by simpa using visited, List.mem_flatMap.1 below⟩

/-- No member expression of the tree is around the node. -/
def Uncovered (root node : Node) : Prop :=
  ∀ outer ∈ root.preorder, outer.isMember → node ∉ outer.descendants

/-- In a tree with distinct identities, these are the nodes that no member expression is around. -/
theorem mem_exposed_iff (distinct : root.Distinct) :
    node ∈ root.exposed ↔ node ∈ root.preorder ∧ root.Uncovered node := by
  induction root using children_induction with
  | step root ih =>
    constructor
    · intro mem
      refine ⟨root.exposed_sublist.subset mem, fun outer inside isMember below => ?_⟩
      rcases mem_exposed_cases mem with rfl | ⟨visited, child, inChildren, deeper⟩
      · exact not_mem_preorder_of_mem_descendants below inside
      · rcases mem_preorder_iff.1 inside with rfl | ⟨other, inOther, further⟩
        · rw [visited] at isMember
          cases isMember
        · have same : other = child := by
            by_contra different
            exact distinct.disjoint inOther inChildren different
              (id_mem_identities (mem_preorder_trans further
                (mem_preorder_of_mem_descendants below)))
              (id_mem_identities (child.exposed_sublist.subset deeper))
          subst same
          have uncovered := ((ih other inOther (distinct.child inOther)).1 deeper).2
          exact uncovered outer further isMember below
    · rintro ⟨mem, uncovered⟩
      rw [exposed_eq]
      rcases mem_preorder_iff.1 mem with rfl | ⟨child, inChildren, deeper⟩
      · exact List.mem_cons_self
      · have below : node ∈ root.descendants := mem_descendants_iff.2 ⟨child, inChildren, deeper⟩
        rw [if_neg fun isMember => uncovered root root.self_mem_preorder isMember below]
        refine List.mem_cons_of_mem _ (List.mem_flatMap.2 ⟨child, inChildren, ?_⟩)
        exact (ih child inChildren (distinct.child inChildren)).2 ⟨deeper, fun outer inside =>
          uncovered outer (mem_preorder_of_mem_children inChildren inside)⟩

end Node

namespace Scope

/-- The moments of the tour of a tree, one after the other. -/
def moments (node : Node) : List Moment :=
  .entering node :: ((if node.isMember then [] else
    node.children.attach.flatMap fun ⟨child, _⟩ => moments child) ++ [.leaving node])
termination_by sizeOf node
decreasing_by exact Node.sizeOf_lt_of_mem_children ‹_›

theorem moments_eq (node : Node) :
    moments node = .entering node ::
      ((if node.isMember then [] else node.children.flatMap moments) ++ [.leaving node]) := by
  rw [moments]
  cases node.isMember <;> simp [List.flatMap_subtype]

/-- The tour enters what no member expression is around. -/
theorem entered_moments (node : Node) :
    (moments node).filterMap Moment.entered? = node.exposed := by
  induction node using Node.children_induction with
  | step node ih =>
    have start (rest : List Moment) :
        (Moment.entering node :: rest).filterMap Moment.entered? =
          node :: rest.filterMap Moment.entered? := rfl
    rw [moments_eq, Node.exposed_eq, start, List.filterMap_append]
    cases node.isMember with
    | true => rfl
    | false =>
      have below : (node.children.flatMap moments).filterMap Moment.entered? =
          node.children.flatMap Node.exposed := by
        rw [List.filterMap_flatMap]
        exact List.flatMap_congr ih
      rw [if_neg Bool.false_ne_true, if_neg Bool.false_ne_true, below]
      exact congrArg (node :: ·) (List.append_nil _)

/-- The moments of a tour are those of nodes in the tree. -/
theorem node_mem_of_mem_moments {node : Node} {moment : Moment} (mem : moment ∈ moments node) :
    moment.node ∈ node.preorder := by
  induction node using Node.children_induction with
  | step node ih =>
    rw [moments_eq, List.mem_cons, List.mem_append, List.mem_singleton] at mem
    rcases mem with rfl | below | rfl
    · exact node.self_mem_preorder
    · split at below
      · cases below
      · obtain ⟨child, inChildren, deeper⟩ := List.mem_flatMap.1 below
        exact Node.mem_preorder_of_mem_children inChildren (ih child inChildren deeper)
    · exact node.self_mem_preorder

/-- What is entered before a node comes before it in preorder, and what is entered later comes
later. -/
theorem exists_split {root node : Node} (distinct : root.Distinct) (mem : node ∈ root.exposed)
    {earlier later : List Node} (around : root.preorder = earlier ++ node :: later) :
    ∃ stretch rest, moments root = stretch ++ .entering node :: rest ∧
      (stretch.filterMap Moment.entered?).Sublist earlier ∧
      (rest.filterMap Moment.entered?).Sublist later := by
  rw [← entered_moments, List.mem_filterMap] at mem
  obtain ⟨moment, mem, isEntered⟩ := mem
  cases moment with
  | leaving other => cases isEntered
  | entering other =>
    cases isEntered
    obtain ⟨stretch, rest, split⟩ := List.append_of_mem mem
    have entered : (stretch.filterMap Moment.entered? ++
        node :: rest.filterMap Moment.entered?).Sublist (earlier ++ node :: later) := by
      have part := root.exposed_sublist
      rw [← entered_moments, split, List.filterMap_append, around] at part
      exact part
    have once : (earlier ++ node :: later).Nodup := by
      rw [← around]
      exact List.Nodup.of_map Node.id distinct
    exact ⟨stretch, rest, split, sublist_of_split entered once⟩

/-- What happens at a moment. -/
def act (names : Namespace) : Moment → Resolving Unit
  | .entering node => do let _ ← enter names node
  | .leaving node => leave node

/-- Goes through moments until the focus is entered, and says whether it came to their end. -/
def walk (names : Namespace) (focus : Option NodeId) : List Moment → Resolving Bool
  | [] => return true
  | .entering node :: stretch =>
    if focus = some node.id then return false else do
      act names (.entering node)
      walk names focus stretch
  | .leaving node :: stretch => do
    act names (.leaving node)
    walk names focus stretch

section Walk

variable (names : Namespace) (focus : Option NodeId)

theorem walk_append (stretch later : List Moment) :
    walk names focus (stretch ++ later) = (do
      if ← walk names focus stretch then walk names focus later else return false) := by
  induction stretch with
  | nil => simp [walk]
  | cons moment stretch ih =>
    cases moment with
    | entering node =>
      rw [List.cons_append, walk, walk]
      split
      · simp
      · simp [ih]
    | leaving node =>
      rw [List.cons_append, walk, walk]
      simp [ih]

/-- Where the tour goes from a node depends on the node alone. -/
theorem enter_bind {α : Type} (node : Node) (next : Direction → Resolving α) :
    enter names node >>= next = (do
      act names (.entering node)
      next (if node.isMember then .pass else .descend)) := by
  obtain ⟨id, kind⟩ := node
  cases kind <;> simp [enter, act, Node.isMember, bind_assoc]

theorem tour_eq_walk (node : Node) :
    node.tour (visitor names focus) = walk names focus (moments node) := by
  induction node using Node.children_induction with
  | step node ih =>
    have siblings : node.children.allM (Node.tour (visitor names focus)) =
        walk names focus (node.children.flatMap moments) := by
      generalize node.children = siblings at ih
      induction siblings with
      | nil => rfl
      | cons sibling siblings rest =>
        rw [List.allM, List.flatMap_cons, walk_append, ih sibling List.mem_cons_self,
          rest fun other mem => ih other (List.mem_cons_of_mem _ mem)]
        refine bind_congr fun toured => ?_
        cases toured <;> rfl
    have enters : (visitor names focus).enter node =
        if focus = some node.id then return .stop else enter names node := rfl
    have leaves : (visitor names focus).leave node = act names (.leaving node) := rfl
    rw [Node.tour_eq, moments_eq, walk, enters, leaves]
    split
    · rw [pure_bind]
    · rw [enter_bind]
      refine bind_congr fun _ => ?_
      cases node.isMember with
      | true => rfl
      | false =>
        rw [if_neg Bool.false_ne_true, if_neg Bool.false_ne_true, walk_append, siblings]
        rfl

/-- Without a focus, all moments come. -/
theorem walk_none (stretch : List Moment) :
    walk names none stretch = (do
      stretch.forM (act names)
      return true) := by
  induction stretch with
  | nil => simp [walk]
  | cons moment stretch ih => cases moment <;> simp [walk, ih]

/-- With a focus, the moments before it is entered come. -/
theorem walk_focus {stretch later : List Moment} {node : Node}
    (first : ∀ other ∈ stretch.filterMap Moment.entered?, other.id ≠ node.id) :
    walk names (some node.id) (stretch ++ .entering node :: later) = (do
      stretch.forM (act names)
      return false) := by
  induction stretch with
  | nil => simp [walk]
  | cons moment stretch ih =>
    cases moment with
    | leaving other => simp [walk, ih first]
    | entering other =>
      have apart : other.id ≠ node.id := first other List.mem_cons_self
      have elsewhere : ¬some node.id = some other.id :=
        fun same => apart (Option.some.inj same).symm
      rw [List.cons_append, walk, if_neg elsewhere,
        ih fun inner mem => first inner (List.mem_cons_of_mem _ mem)]
      simp

end Walk

section Build

variable {root node : Node} (names : Namespace)

/-- The state in which the tour starts. -/
def start : Progress :=
  { scope := outermost names }

theorem build_of_walk {focus : Option NodeId} {after : Progress} {toured : Bool}
    (walked : walk names focus (moments root) (start names) = (.ok toured, after)) :
    build root names focus = (.ok after.scope, after.diagnostics) := by
  have toured :
      root.tour (visitor names focus) { scope := outermost names } = (.ok toured, after) :=
    (congrFun (tour_eq_walk names focus root) (start names)).trans walked
  unfold build
  rw [toured]

/-- The moments before a tour ends all succeed. -/
theorem run_of_walk {focus : Option NodeId} {stretch : List Moment} {toured : Bool}
    (walks : walk names focus (moments root) = (do
      stretch.forM (act names)
      return toured)) :
    ∃ after, stretch.forM (act names) (start names) = (.ok (), after) ∧
      build root names focus = (.ok after.scope, after.diagnostics) := by
  have open' : 0 < (start names).scope.values.depth := Nat.succ_pos _
  obtain ⟨ended, after, ran, -⟩ := @tour_balanced (start names) names focus open' root
  rw [tour_eq_walk, walks] at ran
  obtain ⟨_, middle, ran', ends⟩ := Step.bind_ok_inv ran
  cases ends
  exact ⟨after, ran', build_of_walk names ((congrFun walks (start names)).trans ran)⟩

/-- Without a focus, what is resolved comes from all moments. -/
theorem build_run (root : Node) :
    ∃ after, (moments root).forM (act names) (start names) = (.ok (), after) ∧
      build root names none = (.ok after.scope, after.diagnostics) :=
  run_of_walk names (walk_none names (moments root))

/-- With a focus, what is resolved comes from the moments before it is entered. -/
theorem build_run_focus {stretch later : List Moment}
    (split : moments root = stretch ++ .entering node :: later)
    (first : ∀ other ∈ stretch.filterMap Moment.entered?, other.id ≠ node.id) :
    ∃ after, stretch.forM (act names) (start names) = (.ok (), after) ∧
      build root names (some node.id) = (.ok after.scope, after.diagnostics) := by
  have walks : walk names (some node.id) (moments root) = (do
      stretch.forM (act names)
      return false) := by
    rw [split, walk_focus names first]
  exact run_of_walk names walks

end Build

end Scope

end DeclLang
