import DeclLang.Proofs.Sightings

/-!
# What is visible at a node

**Input.**  A tree with distinct identities, any namespace, and an identifier in the tree that is
not below a member expression.

**Algorithm.**  A tour with the identifier as its focus stops when it enters it, with all frames
still open.  Laid over each other, they show what is visible there.

**Results.**
* `Scope.seen_apart`: what a stretch of the tour sees is told apart from what comes later by where
  it is in preorder.
* `Scope.build_focused`: what is visible under the name of the identifier is what the identifier
  stands for, and what the stopped tour knows about references is what the whole tour knows about
  those before the identifier.
-/

namespace DeclLang

open Inference (Moment)

namespace Scope

theorem resolve_eq_some_iff {scope : Scope} {id declaration : NodeId} :
    scope.resolve id = some declaration ↔ (scope.known .identifier)[id]? = some declaration ∨
      (scope.known .identifier)[id]? = none ∧ (scope.known .member)[id]? = some declaration :=
  Option.or_eq_some_iff

section Runs

variable {names : Namespace} {before after : Progress}

/-- A stretch that is gone through has all its beginnings gone through. -/
theorem run_append_inv {stretch later : List Moment}
    (ran : (stretch ++ later).forM (act names) before = (.ok (), after)) :
    ∃ middle, stretch.forM (act names) before = (.ok (), middle) ∧
      later.forM (act names) middle = (.ok (), after) := by
  have ran : (forM (stretch ++ later) (act names)) before = (.ok (), after) := ran
  rw [List.forM_append] at ran
  obtain ⟨_, middle, first, rest⟩ := Step.bind_ok_inv ran
  exact ⟨middle, first, rest⟩

/-- Nothing is asked of what is in scope. -/
theorem covers_anything (root : Node) (names : Namespace) : Covers root names fun _ _ => True :=
  ⟨fun _ _ _ _ => trivial, fun _ _ _ _ => trivial, fun _ _ _ _ => trivial⟩

theorem framed_anything (progress : Progress) : Framed (fun _ _ => True) progress :=
  ⟨fun _ _ _ _ _ => trivial, fun _ _ _ _ _ => trivial, fun _ _ => trivial⟩

end Runs

/-- A tour that is stopped at a node, and one that goes on.  Both see the same before the node, and
the second sees the node itself and what comes behind it. -/
structure Stops (names : Namespace) (node : Node) (earlier later : List Node)
    (focused full : Progress) (seen rest : List Sighting) (own : Sighting) : Prop where
  stopped : Notes seen (start names) focused
  toured : Notes (seen ++ own :: rest) (start names) full
  atNode : own.node = node
  found : own.declaration? = look names focused node
  before : (seen.map Sighting.node).Sublist earlier
  behind : (rest.map Sighting.node).Sublist later

section Focus

variable {root node : Node} {names : Namespace} {name : String} {earlier later : List Node}
  {focused full : Progress} {seen rest : List Sighting} {own : Sighting} {kind : ReferenceKind}
  {id declaration : NodeId}

/-- A reference that is not below a member expression stops the tour. -/
theorem exists_stops (names : Namespace) (distinct : root.Distinct) (mem : node ∈ root.exposed)
    (around : root.preorder = earlier ++ node :: later)
    (isReference : node.referenceKind? = some kind) :
    ∃ focused full seen rest own,
      build root names (some node.id) = (.ok focused.scope, focused.diagnostics) ∧
      build root names none = (.ok full.scope, full.diagnostics) ∧
      Stops names node earlier later focused full seen rest own := by
  obtain ⟨stretch, after, split, before, behind⟩ := exists_split distinct mem around
  have inside (moment : Moment) (among : moment ∈ moments root) : moment.node ∈ root.preorder :=
    node_mem_of_mem_moments among
  have first (other : Node) (among : other ∈ stretch.filterMap Moment.entered?) :
      other.id ≠ node.id := by
    have ids := distinct
    rw [Node.Distinct, Node.identities, around, List.map_append, List.nodup_append] at ids
    exact ids.2.2 _ (List.mem_map_of_mem (before.subset among)) _ List.mem_cons_self
  obtain ⟨focused, ran, stopped⟩ := build_run_focus names split first
  obtain ⟨full, ranAll, toured⟩ := build_run names root
  rw [split] at ranAll
  obtain ⟨middle, same, ranRest⟩ := run_append_inv ranAll
  cases ran.symm.trans same
  obtain ⟨seen, noted, nodes, -⟩ := run_sees (covers_anything root names)
    (fun moment among => inside moment (split ▸ List.mem_append_left _ among))
    (framed_anything _) ran
  obtain ⟨_, entered, enters, ranRest⟩ := Step.bind_ok_inv ranRest
  cases (enter_reference names isReference focused).symm.trans enters
  obtain ⟨rest, notedRest, nodesRest, -⟩ := run_sees (covers_anything root names)
    (fun moment among => inside moment
      (split ▸ List.mem_append_right _ (List.mem_cons_of_mem _ among)))
    (framed_anything _) ranRest
  refine ⟨focused, full, seen, rest, _, stopped, toured, noted,
    noted.trans ((notes_see _ _).trans notedRest), rfl, rfl, ?_, ?_⟩
  · rw [nodes]
    exact List.filter_sublist.trans before
  · rw [nodesRest]
    exact List.filter_sublist.trans behind

namespace Stops

variable (stops : Stops names node earlier later focused full seen rest own)
  (distinct : ((earlier ++ node :: later).map Node.id).Nodup)

include stops distinct

/-- No two sightings have a node with the same identity. -/
theorem nodup : ((seen ++ own :: rest).map fun sighting => sighting.node.id).Nodup := by
  have nodes : ((seen ++ own :: rest).map Sighting.node).Sublist (earlier ++ node :: later) := by
    rw [List.map_append, List.map_cons, stops.atNode]
    exact stops.before.append (stops.behind.cons_cons node)
  have ids := distinct.sublist (nodes.map Node.id)
  rw [List.map_map] at ids
  exact ids

/-- What the stopped tour has seen is what the whole tour has seen before the node. -/
theorem mem_seen_iff {sighting : Sighting} :
    sighting ∈ seen ↔
      sighting ∈ seen ++ own :: rest ∧ sighting.node.id ∈ earlier.map Node.id := by
  have among {part : List Sighting} {nodes : List Node}
      (sub : (part.map Sighting.node).Sublist nodes) (mem : sighting ∈ part) :
      sighting.node.id ∈ nodes.map Node.id :=
    List.mem_map_of_mem (sub.subset (List.mem_map_of_mem mem))
  rw [List.map_append, List.nodup_append] at distinct
  constructor
  · exact fun mem => ⟨List.mem_append_left _ mem, among stops.before mem⟩
  · rintro ⟨mem, early⟩
    rcases List.mem_append.1 mem with mem | mem
    · exact mem
    · have late : sighting.node.id ∈ (node :: later).map Node.id := by
        rcases List.mem_cons.1 mem with rfl | mem
        · rw [stops.atNode]
          exact List.mem_cons_self
        · exact List.mem_cons_of_mem _ (among stops.behind mem)
      exact absurd rfl (distinct.2.2 _ early _ late)

/-- The whole tour has seen the node once. -/
theorem eq_own_iff {sighting : Sighting} :
    sighting ∈ seen ++ own :: rest ∧ sighting.node.id = node.id ↔ sighting = own := by
  have mem : own ∈ seen ++ own :: rest := List.mem_append_right _ List.mem_cons_self
  constructor
  · rintro ⟨among, same⟩
    exact List.inj_on_of_nodup_map (stops.nodup distinct) among mem (stops.atNode ▸ same)
  · rintro rfl
    exact ⟨mem, congrArg Node.id stops.atNode⟩

/-- What the stopped tour knows is what the whole tour knows about references before the node. -/
theorem known_iff :
    (focused.scope.known kind)[id]? = some declaration ↔
      (full.scope.known kind)[id]? = some declaration ∧ id ∈ earlier.map Node.id := by
  have nodup := stops.nodup distinct
  have first := nodup
  rw [List.map_append, List.nodup_append] at first
  rw [stops.stopped.known_iff first.1, stops.toured.known_iff nodup]
  simp only [stops.mem_seen_iff distinct]
  grind

theorem undefined_iff :
    id ∈ focused.scope.undefined kind ↔
      id ∈ full.scope.undefined kind ∧ id ∈ earlier.map Node.id := by
  rw [stops.stopped.undefined_iff, stops.toured.undefined_iff]
  simp only [stops.mem_seen_iff distinct]
  grind

/-- What is known about the node is what the stopped tour would have found. -/
theorem known_node_iff :
    (full.scope.known kind)[node.id]? = some declaration ↔
      own.kind = kind ∧ look names focused node = some declaration := by
  rw [stops.toured.known_iff (stops.nodup distinct), ← stops.found]
  constructor
  · rintro ⟨sighting, mem, rfl, same, found⟩
    cases (stops.eq_own_iff distinct).1 ⟨mem, same⟩
    exact ⟨rfl, found⟩
  · rintro ⟨rfl, found⟩
    obtain ⟨mem, same⟩ := (stops.eq_own_iff distinct).2 rfl
    exact ⟨own, mem, rfl, same, found⟩

theorem undefined_node_iff :
    node.id ∈ full.scope.undefined kind ↔
      own.kind = kind ∧ look names focused node = none := by
  rw [stops.toured.undefined_iff, ← stops.found]
  constructor
  · rintro ⟨sighting, mem, rfl, same, missing⟩
    cases (stops.eq_own_iff distinct).1 ⟨mem, same⟩
    exact ⟨rfl, missing⟩
  · rintro ⟨rfl, missing⟩
    obtain ⟨mem, same⟩ := (stops.eq_own_iff distinct).2 rfl
    exact ⟨own, mem, rfl, same, missing⟩

end Stops

/-- A tour that stops at an identifier shows what the identifier stands for under its name, and
nothing under that name if the identifier is undefined.  What it knows about references is what the
whole tour knows about those that come before the identifier. -/
theorem build_focused (names : Namespace) (distinct : root.Distinct)
    (around : root.preorder = earlier ++ node :: later)
    (isIdentifier : node.kind = .identifier name) (uncovered : root.Uncovered node) :
    ∃ full reports focused focusedReports,
      build root names none = (.ok full, reports) ∧
      build root names (some node.id) = (.ok focused, focusedReports) ∧
      (∀ declaration, focused.visibleValues[name]? = some declaration ↔
        full.resolve node.id = some declaration) ∧
      (focused.visibleValues[name]? = none ↔ full.isUndefined node.id = true) ∧
      ∀ kind id,
        (∀ declaration, (focused.known kind)[id]? = some declaration ↔
          (full.known kind)[id]? = some declaration ∧ id ∈ earlier.map Node.id) ∧
        (id ∈ focused.undefined kind ↔ id ∈ full.undefined kind ∧ id ∈ earlier.map Node.id) := by
  have mem : node ∈ root.preorder := by simp [around]
  have isReference : node.referenceKind? = some .identifier := by
    unfold Node.referenceKind?
    rw [isIdentifier]
  obtain ⟨focused, full, seen, rest, own, builtFocused, built, stops⟩ :=
    exists_stops names distinct ((Node.mem_exposed_iff distinct).2 ⟨mem, uncovered⟩) around
      isReference
  rw [Node.Distinct, Node.identities, around] at distinct
  have ownKind : own.kind = .identifier := by
    have same := own.isReference
    rw [stops.atNode, isReference] at same
    exact (Option.some.inj same).symm
  have visible : focused.scope.visibleValues[name]? = look names focused node := by
    rw [visibleValues, ScopeStack.getElem?_flatten]
    unfold look
    rw [isIdentifier]
  refine ⟨full.scope, _, focused.scope, _, built, builtFocused, fun declaration => ?_, ?_,
    fun kind id => ⟨fun declaration => stops.known_iff distinct, stops.undefined_iff distinct⟩⟩
  · rw [visible, resolve_eq_some_iff, stops.known_node_iff distinct, stops.known_node_iff distinct,
      ownKind]
    simp
  · rw [visible, isUndefined_iff]
    simp only [stops.undefined_node_iff distinct, ownKind]
    simp

/-- Inside of the branch of the bakery, the field of the record is visible. -/
theorem build_focused_bakery :
    ∃ names full reports focused focusedReports, Namespace.build bakery = .ok names ∧
      build bakery names none = (.ok full, reports) ∧
      build bakery names (some 14) = (.ok focused, focusedReports) ∧
      full.resolve 14 = some 2 ∧ focused.visibleValues["weight"]? = some 2 := by
  let weight : Node := .mk 14 (.identifier "weight")
  let result : Node := .mk 13 (.returnStatement (some weight))
  have inside : result ∈ bakeryBranch.children := List.mem_cons_of_mem _ List.mem_cons_self
  have mem : weight ∈ bakery.preorder :=
    Node.mem_preorder_trans bakeryBranch_at.mem_preorder
      (Node.mem_preorder_of_mem_children inside
        (Node.mem_preorder_of_mem_children List.mem_cons_self weight.self_mem_preorder))
  have plain : ∀ outer ∈ bakery.preorder, outer.isMember = false := by decide +kernel
  have checked : ((Namespace.build bakery).toOption.bind fun names =>
      (build bakery names none).1.toOption.bind fun full => full.resolve 14) = some 2 := by
    decide +kernel
  obtain ⟨names, found, checked⟩ := Option.bind_eq_some_iff.1 checked
  obtain ⟨scope, toured, resolved⟩ := Option.bind_eq_some_iff.1 checked
  obtain ⟨earlier, later, around⟩ := List.append_of_mem mem
  obtain ⟨full, reports, focused, focusedReports, built, builtFocused, visible, -⟩ :=
    build_focused names bakery_wellFormed.1 around rfl fun outer among isMember => by
      rw [plain outer among] at isMember
      cases isMember
  rw [built] at toured
  cases toured
  exact ⟨names, _, reports, focused, focusedReports, eq_ok_of_toOption found, built,
    builtFocused, resolved, (visible 2).2 resolved⟩

end Focus

end Scope

end DeclLang
