import DeclLang.Proofs.ParameterTypes

/-!
# The moments of inference

Inference comes to a node twice, when it enters and when it leaves it.  What happened before a node
was left is therefore a stretch of a list that depends on the tree alone.

**Input.**  A tree with distinct identities.

**Construction.**  `Inference.moments` lists the moments of the tour, and `Environment.run` goes
through a stretch of them.  `Inference.run_moments`: to go through all of them is to tour the tree.

**Results.**
* `Inference.prepared_moments`: at every moment, what entering or leaving a node relies on is there.
* `Inference.steady_moments`: so at every moment, what is known is only added to.
* `Typing.grows_run`: so what is known after a stretch of the tour is known after a longer one.
-/

namespace DeclLang

namespace Inference

/-- A moment of the tour: a node is entered, or it is left. -/
inductive Moment where
  | entering (node : Node)
  | leaving (node : Node)

/-- The node that is entered or left. -/
def Moment.node : Moment → Node
  | .entering node | .leaving node => node

/-- The moments of the tour of a tree, one after the other. -/
def moments (node : Node) : List Moment :=
  .entering node :: ((if passesOver node then [] else
    node.children.attach.flatMap fun ⟨child, _⟩ => moments child) ++ [.leaving node])
termination_by sizeOf node
decreasing_by exact Node.sizeOf_lt_of_mem_children ‹_›

theorem moments_eq (node : Node) :
    moments node = .entering node :: ((visited node).flatMap moments ++ [.leaving node]) := by
  rw [moments, visited]
  cases passesOver node <;> simp [List.flatMap_subtype]

/-- Nodes are entered and left where inference comes to. -/
theorem mem_moments_iff {function? : Option Node} {node : Node} {moment : Moment} :
    moment ∈ moments node ↔ ∃ place ∈ reached function? node, place.2 = moment.node := by
  induction node using Node.children_induction generalizing function? with
  | step node ih =>
    rw [moments_eq, List.mem_cons, List.mem_append, List.mem_flatMap, List.mem_singleton]
    constructor
    · rintro (rfl | ⟨child, visit, below⟩ | rfl)
      · exact ⟨_, self_mem_reached function? node, rfl⟩
      · obtain ⟨place, mem, same⟩ := (ih child (mem_children_of_mem_visited visit)).1 below
        exact ⟨place, mem_reached_iff.2 (.inr ⟨child, visit, mem⟩), same⟩
      · exact ⟨_, self_mem_reached function? node, rfl⟩
    · rintro ⟨place, mem, same⟩
      rcases mem_reached_iff.1 mem with rfl | ⟨child, visit, below⟩
      · cases moment with
        | entering other => exact .inl (congrArg Moment.entering same.symm)
        | leaving other => exact .inr (.inr (congrArg Moment.leaving same.symm))
      · exact .inr (.inl ⟨child, visit,
          (ih child (mem_children_of_mem_visited visit)).2 ⟨place, below, same⟩⟩)

/-- What inference comes to is left at some moment of the tour. -/
theorem exists_split {function? : Option Node} {root : Node} {place : Option Node × Node}
    (reach : place ∈ reached function? root) :
    ∃ earlier later, moments root = earlier ++ .leaving place.2 :: later :=
  List.append_of_mem (mem_moments_iff.2 ⟨place, reach, rfl⟩)

/-- Moments of a tree are moments of its nodes. -/
theorem id_mem_of_mem_moments {node : Node} {moment : Moment} (h : moment ∈ moments node) :
    moment.node.id ∈ node.identities := by
  obtain ⟨place, mem, same⟩ := (@mem_moments_iff none _ _).1 h
  exact same ▸ Node.id_mem_identities (mem_preorder_of_mem_reached mem)

theorem disjoint_visited {node : Node} (distinct : node.Distinct) :
    (visited node).Pairwise fun left right => left.identities.Disjoint right.identities := by
  unfold visited
  split
  · exact .nil
  · exact distinct.pairwise_disjoint

/-- In a tree with distinct identities, no moment comes again. -/
theorem nodup_moments {node : Node} (distinct : node.Distinct) : (moments node).Nodup := by
  induction node using Node.children_induction with
  | step node ih =>
    have apart {moment : Moment} (mem : moment ∈ (visited node).flatMap moments) :
        moment.node ≠ node := by
      obtain ⟨child, visit, below⟩ := List.mem_flatMap.1 mem
      intro same
      have here := id_mem_of_mem_moments below
      rw [same] at here
      exact distinct.not_mem_child (mem_children_of_mem_visited visit) here
    have disjoint := disjoint_visited distinct
    rw [moments_eq, List.nodup_cons, List.nodup_append, List.nodup_flatMap]
    refine ⟨fun mem => ?_, ⟨fun child visit => ?_, ?_⟩, List.nodup_singleton _, ?_⟩
    · rcases List.mem_append.1 mem with mem | mem
      · exact apart mem rfl
      · cases List.mem_singleton.1 mem
    · have mem := mem_children_of_mem_visited visit
      exact ih child mem (distinct.child mem)
    · refine disjoint.imp fun others moment here there => ?_
      exact others (id_mem_of_mem_moments here) (id_mem_of_mem_moments there)
    · rintro moment mem last here rfl
      rw [List.mem_singleton.1 here] at mem
      exact apart mem rfl

/-- What happens at a moment. -/
def Environment.advance (environment : Environment) (state : State) : Moment → State
  | .entering node => (enter environment node state).2
  | .leaving node => (leave environment node state).2

/-- The state that a stretch of the tour comes to. -/
def Environment.run (environment : Environment) (stretch : List Moment) (state : State) : State :=
  stretch.foldl environment.advance state

section Run

variable (environment : Environment)

@[simp] theorem run_nil (state : State) : environment.run [] state = state :=
  rfl

@[simp] theorem run_cons (moment : Moment) (stretch : List Moment) (state : State) :
    environment.run (moment :: stretch) state =
      environment.run stretch (environment.advance state moment) :=
  rfl

@[simp] theorem run_append (stretch later : List Moment) (state : State) :
    environment.run (stretch ++ later) state =
      environment.run later (environment.run stretch state) :=
  List.foldl_append

/-- What every moment of a stretch keeps, the stretch keeps. -/
theorem run_keeps {holds : State → Prop} {stretch : List Moment}
    (each : ∀ moment ∈ stretch, ∀ state, holds state → holds (environment.advance state moment))
    {state : State} (h : holds state) : holds (environment.run stretch state) := by
  induction stretch generalizing state with
  | nil => exact h
  | cons moment stretch ih =>
    exact ih (fun other mem => each other (List.mem_cons_of_mem _ mem))
      (each moment List.mem_cons_self state h)

/-- Inference goes to the children unless it passes over them. -/
theorem enter_goes (node : Node) (state : State) :
    (enter environment node state).1 = if passesOver node then .pass else .descend := by
  cases h : enter environment node state with
  | mk direction after =>
    obtain ⟨id, kind⟩ := node
    cases kind with
    | functionDecl name generics parameters result body =>
      obtain ⟨type, middle, -, h⟩ := bind_inv h
      cases type <;>
      · obtain ⟨_, _, -, h⟩ := bind_inv h
        obtain ⟨_, _, -, h⟩ := bind_inv h
        cases h
        rfl
    | recordDecl | enumerationDecl =>
      obtain ⟨type, middle, -, h⟩ := bind_inv h
      cases h
      rfl
    | _ =>
      cases h
      rfl

/-- The children are toured one after the other. -/
theorem afterChildren_eq (node : Node) (entered state : State) :
    afterChildren (visitor environment) node (enter environment node entered).1 state =
      (visited node).foldl (fun state child => child.collect (visitor environment) state)
        state := by
  rw [enter_goes, visited]
  cases passesOver node with
  | true => rfl
  | false => rfl

/-- The moments of a tree are what its tour goes through. -/
theorem run_moments (node : Node) (state : State) :
    environment.run (moments node) state = node.collect (visitor environment) state := by
  induction node using Node.children_induction generalizing state with
  | step node ih =>
    have children (nodes : List Node) (below : nodes ⊆ node.children) (state : State) :
        environment.run (nodes.flatMap moments) state =
          nodes.foldl (fun state child => child.collect (visitor environment) state) state := by
      induction nodes generalizing state with
      | nil => rfl
      | cons child nodes rest =>
        rw [List.flatMap_cons, run_append, ih child (below List.mem_cons_self),
          rest fun other mem => below (List.mem_cons_of_mem _ mem)]
        rfl
    have tour : node.collect (visitor environment) state = _ :=
      Node.collect_eq (enter_descends environment) node state
    have toured := afterChildren_eq environment node state (enter environment node state).2
    rw [visitor] at toured
    rw [tour, toured, moments_eq, run_cons, run_append,
      children _ fun _ mem => mem_children_of_mem_visited mem]
    rfl

/-- The moments of the children are what is toured between entering and leaving a node. -/
theorem run_children (node : Node) (entered state : State) :
    environment.run ((visited node).flatMap moments) state =
      afterChildren (visitor environment) node (enter environment node entered).1 state := by
  rw [afterChildren_eq]
  induction visited node generalizing state with
  | nil => rfl
  | cons child nodes ih =>
    rw [List.flatMap_cons, run_append, run_moments, ih]
    rfl

end Run

/-- A property that every moment of a stretch has in the state that it comes in. -/
def Along (environment : Environment) (holds : Moment → State → Prop) : List Moment → State → Prop
  | [], _ => True
  | moment :: stretch, state =>
    holds moment state ∧ Along environment holds stretch (environment.advance state moment)

theorem along_append {environment : Environment} {holds : Moment → State → Prop}
    {stretch later : List Moment} {state : State} :
    Along environment holds (stretch ++ later) state ↔
      Along environment holds stretch state ∧
        Along environment holds later (environment.run stretch state) := by
  induction stretch generalizing state with
  | nil => simp [Along]
  | cons moment stretch ih => simp [Along, ih, and_assoc]

theorem Along.imp {environment : Environment} {holds gives : Moment → State → Prop}
    {stretch : List Moment} {state : State} (along : Along environment holds stretch state)
    (weaker : ∀ moment state, holds moment state → gives moment state) :
    Along environment gives stretch state := by
  induction stretch generalizing state with
  | nil => trivial
  | cons moment stretch ih => exact ⟨weaker moment state along.1, ih along.2⟩

/-- What a moment of the tour relies on. -/
def Prepared (environment : Environment) (root : Node) : Moment → State → Prop
  | .entering node, state => ∃ function?, Ready environment root function? [node] state
  | .leaving node, state => ∃ function?, Awaited environment root function? node state

/-- At every moment of a stretch, what is known is only added to. -/
def Steady (environment : Environment) (root : Node) : List Moment → State → Prop
  | [], _ => True
  | moment :: stretch, state =>
    Grows environment root root.identities (explained root) state
        (environment.advance state moment) ∧
      Steady environment root stretch (environment.advance state moment)

section Steady

variable {environment : Environment} {root : Node} {function? : Option Node} {before : State}

theorem steady_iff {stretch : List Moment} {state : State} :
    Steady environment root stretch state ↔
      Along environment (fun moment state => Grows environment root root.identities (explained root)
        state (environment.advance state moment)) stretch state := by
  induction stretch generalizing state with
  | nil => exact Iff.rfl
  | cons moment stretch ih => rw [Steady, Along, ih]

theorem steady_append {stretch later : List Moment} {state : State} :
    Steady environment root (stretch ++ later) state ↔
      Steady environment root stretch state ∧
        Steady environment root later (environment.run stretch state) := by
  rw [steady_iff, steady_iff, steady_iff, along_append]

/-- What is known before a steady stretch is known after it. -/
theorem Steady.grows {stretch : List Moment} {state : State}
    (steady : Steady environment root stretch state) :
    Grows environment root root.identities (explained root) state
      (environment.run stretch state) := by
  induction stretch generalizing state with
  | nil => exact .refl
  | cons moment stretch ih => exact steady.1.trans (ih steady.2)

/-- Prepared moments are moments of nodes of the tree. -/
theorem Prepared.mem_preorder {moment : Moment} {state : State}
    (prepared : Prepared environment root moment state) : moment.node ∈ root.preorder := by
  cases moment with
  | entering node =>
    obtain ⟨function?, ready⟩ := prepared
    exact mem_preorder_of_mem_reached
      (ready.places node List.mem_cons_self (self_mem_reached function? node))
  | leaving node =>
    obtain ⟨function?, awaited⟩ := prepared
    exact mem_preorder_of_mem_reached awaited.place

variable (built : NodeIndex.build root = .ok environment.index) (distinct : root.Distinct)

include built distinct

/-- Trees without an identity in common are toured as prepared if each of them is. -/
theorem prepared_flatMap {nodes : List Node} (inside : nodes ⊆ root.preorder)
    (disjoint : nodes.Pairwise fun left right => left.identities.Disjoint right.identities)
    (each : ∀ node ∈ nodes, ∀ before, Ready environment root function? [node] before →
      Along environment (Prepared environment root) (moments node) before)
    (ready : Ready environment root function? nodes before) :
    Along environment (Prepared environment root) (nodes.flatMap moments) before := by
  induction nodes generalizing before with
  | nil => trivial
  | cons node nodes ih =>
    rw [List.pairwise_cons] at disjoint
    have toured := toured_collect built distinct (inside List.mem_cons_self) ready.head
    rw [List.flatMap_cons, along_append, run_moments]
    exact ⟨each node List.mem_cons_self before ready.head,
      ih (fun other mem => inside (List.mem_cons_of_mem _ mem)) disjoint.2
        (fun other mem => each other (List.mem_cons_of_mem _ mem))
        (ready.tail toured disjoint.1)⟩

/-- In a tree with distinct identities, every moment of the tour is prepared. -/
theorem prepared_moments {node : Node} (inside : node ∈ root.preorder)
    (ready : Ready environment root function? [node] before) :
    Along environment (Prepared environment root) (moments node) before := by
  induction node using Node.children_induction generalizing function? before with
  | step node ih =>
    have below {child : Node} (mem : child ∈ node.children) : child ∈ root.preorder :=
      Node.mem_preorder_trans inside
        (Node.mem_preorder_of_mem_children mem child.self_mem_preorder)
    have enters := enter_inv built distinct inside ready.declared ready.returns
      (Prod.mk.eta (p := enter environment node before)).symm
    have toured := enters.toured_children distinct inside ready fun child mem _ ready =>
      toured_collect built distinct (below mem) ready
    rw [← run_children environment node before] at toured
    rw [moments_eq, Along, along_append]
    refine ⟨⟨function?, ready⟩, ?_, ⟨function?, ?_⟩, trivial⟩
    · refine prepared_flatMap built distinct
        (fun child mem => below (mem_children_of_mem_visited mem))
        (disjoint_visited (distinct.inner inside)) (fun child mem before ready => ?_)
        (enters.ready ready)
      have mem := mem_children_of_mem_visited mem
      exact ih child mem (below mem) ready
    · exact enters.awaited distinct inside ready toured

/-- A node that is ready to be entered is entered. -/
theorem Prepared.entered {node : Node} {state : State}
    (prepared : Prepared environment root (.entering node) state) :
    ∃ function?, Entered environment root function? node state
      (environment.advance state (.entering node)) (enter environment node state).1 := by
  have inside : node ∈ root.preorder := prepared.mem_preorder
  obtain ⟨function?, ready⟩ := prepared
  exact ⟨function?, enter_inv built distinct inside ready.declared ready.returns rfl⟩

/-- A node that is ready to be left is settled. -/
theorem Prepared.settled {node : Node} {state : State}
    (prepared : Prepared environment root (.leaving node) state) :
    ∃ function?, Settled environment root function? node state
      (environment.advance state (.leaving node)) := by
  have inside : node ∈ root.preorder := prepared.mem_preorder
  obtain ⟨function?, awaited⟩ := prepared
  exact ⟨function?, leave_inv built distinct inside awaited rfl⟩

/-- At a prepared moment, what is known is only added to. -/
theorem Prepared.grows {moment : Moment} {state : State}
    (prepared : Prepared environment root moment state) :
    Grows environment root root.identities (explained root) state
      (environment.advance state moment) := by
  have inside := prepared.mem_preorder
  cases moment with
  | entering node =>
    obtain ⟨function?, entered⟩ := prepared.entered built distinct
    exact entered.grows.mono (List.nil_subset _) (List.nil_subset _)
  | leaving node =>
    obtain ⟨function?, settled⟩ := prepared.settled built distinct
    refine settled.grows.mono (fun id mem => ?_) (List.Subset.refl _)
    rcases List.mem_cons.1 mem with rfl | mem
    · exact Node.id_mem_identities inside
    · obtain ⟨child, visit, rfl⟩ := List.mem_map.1 mem
      exact Node.id_mem_identities (Node.mem_preorder_trans inside
        (Node.mem_preorder_of_mem_children (mem_children_of_mem_visited visit)
          child.self_mem_preorder))

/-- A tree with distinct identities is toured steadily. -/
theorem steady_moments {node : Node} (inside : node ∈ root.preorder)
    (ready : Ready environment root function? [node] before) :
    Steady environment root (moments node) before :=
  steady_iff.2 ((prepared_moments built distinct inside ready).imp fun _ _ prepared =>
    prepared.grows built distinct)

end Steady

end Inference

open Inference

/-- The state in which inference starts. -/
abbrev Inference.State.initial (supply : VariableSupply) : State :=
  { typing := { supply } }

section Infer

variable {root : Node} {index : NodeIndex} (scope : Scope) (supply : VariableSupply)

/-- Inference goes through the moments of the tree. -/
theorem Typing.infer_eq_run (root : Node) (index : NodeIndex) :
    Typing.infer root scope index supply =
      (Environment.run { scope, index } (moments root) (State.initial supply)).typing := by
  rw [run_moments]
  rfl

variable (distinct : root.Distinct) (built : NodeIndex.build root = .ok index)

include distinct built

/-- What is known after a stretch of the tour is known after a longer one. -/
theorem Typing.grows_run {earlier stretch later : List Moment}
    (split : moments root = earlier ++ (stretch ++ later)) :
    let environment : Environment := { scope, index }
    let before := environment.run earlier (State.initial supply)
    Grows environment root root.identities (explained root) before
      (environment.run stretch before) := by
  have steady := steady_moments built distinct root.self_mem_preorder
    (.start { scope, index } root supply)
  rw [split, steady_append, steady_append] at steady
  exact steady.2.1.grows

/-- What is known after a moment of the tour is known after inference. -/
theorem Typing.grows_infer {earlier later : List Moment} {moment : Moment}
    (split : moments root = earlier ++ moment :: later) :
    let environment : Environment := { scope, index }
    Grows environment root root.identities (explained root)
      (environment.advance (environment.run earlier (State.initial supply)) moment)
      (environment.run (moments root) (State.initial supply)) := by
  intro environment
  have whole : moments root = (earlier ++ [moment]) ++ (later ++ []) := by simp [split]
  have grows := Typing.grows_run scope supply distinct built whole
  simp only [run_append, run_cons, run_nil] at grows
  rw [split, run_append, run_cons]
  exact grows

/-- After any stretch of the tour, the types of declarations have the shape that they are written
with. -/
theorem Typing.declared_run {earlier later : List Moment}
    (split : moments root = earlier ++ later) :
    let environment : Environment := { scope, index }
    Declared environment root (environment.run earlier (State.initial supply)) := by
  have whole : moments root = [] ++ (earlier ++ later) := split
  exact (Typing.grows_run scope supply distinct built whole).declared nofun

/-- A node with a type is one that inference comes to. -/
theorem Typing.reached_of_typed {node : Node} (inside : node ∈ root.preorder) {type : StaticType}
    (typed : (Typing.infer root scope index supply).nodes[node.id]? = some type) :
    ∃ place ∈ reached none root, place.2 = node := by
  have toured := toured_collect built distinct root.self_mem_preorder
    (.start { scope, index } root supply)
  by_contra unreached
  have untyped := toured.grows.others node.id fun mem => by
    obtain ⟨_, only, place, reach, same⟩ := mem_reachedIds_iff.1 mem
    rw [List.mem_singleton.1 only] at reach
    exact unreached ⟨place, reach,
      Node.eq_of_id_eq distinct (mem_preorder_of_mem_reached reach) inside same⟩
  have none : (Typing.infer root scope index supply).nodes[node.id]? = none := untyped
  rw [none] at typed
  cases typed

end Infer

end DeclLang
