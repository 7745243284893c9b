import DeclLang.Proofs.TypingRules
import DeclLang.Evaluation.Registration
import DeclLang.Proofs.DeferredValues
import DeclLang.Proofs.StepInvariants

/-!
# What a tour leaves in a table

**Input.**  A tour that cannot fail, in a tree with distinct identities, and something to look at in
its state that only the node with one identity changes.

**Results.**
* `collect_reached`: after the tour it is what entering that node made of it, for every node that is
  reached.
* `Registration.thunk?_ofProgram`, `Registration.value?_ofProgram`: so every reached node of a
  program has the recipe or the value it is registered with.
* `Plan.facts_build`: and the plan has the facts about it.
-/

namespace DeclLang

open Inference (reached visited)

section Tables

variable {σ β : Type} (enter : Node → StateM σ Direction) (leave : Node → StateM σ Unit)
  (look : σ → β) {id : NodeId} (descends : ∀ node state, (enter node state).1 ≠ .stop)
  (others : ∀ node state, node.id ≠ id → look (enter node state).2 = look state)
  (leaves : ∀ node state, look (leave node state).2 = look state)

omit descends others leaves in
theorem foldl_collect_untouched {children : List Node}
    (each : ∀ child ∈ children, ∀ state,
      look (child.collect (.ofTotal enter leave) state) = look state) (state : σ) :
    look (children.foldl (fun state child => child.collect (.ofTotal enter leave) state) state) =
      look state := by
  induction children generalizing state with
  | nil => rfl
  | cons child children ih =>
    rw [List.foldl_cons, ih (fun other mem => each other (List.mem_cons_of_mem _ mem)),
      each child List.mem_cons_self]

include descends others leaves

/-- A tour of nodes with other identities changes nothing. -/
theorem collect_untouched {node : Node} (absent : id ∉ node.identities) (state : σ) :
    look (node.collect (.ofTotal enter leave) state) = look state := by
  induction node using Node.children_induction generalizing state with
  | step node ih =>
    rw [Node.identities_eq, List.mem_cons, not_or] at absent
    have below : look (afterChildren (.ofTotal enter leave) node (enter node state).1
        (enter node state).2) = look (enter node state).2 := by
      unfold afterChildren
      split
      · refine foldl_collect_untouched enter leave look (fun child mem state => ?_) _
        exact ih child mem (fun inside => absent.2 (List.mem_flatMap.2 ⟨child, mem, inside⟩)) state
      · rfl
    rw [Node.collect_eq descends, leaves, below, others node state (Ne.symm absent.1)]

/-- After a tour, what only one reached node changes is what entering it made of it. -/
theorem collect_reached (goes : ∀ node state, ∀ child ∈ visited node,
      (enter node state).1 = .descend) {node : Node} (distinct : node.Distinct)
    {function? : Option Node} {place : Option Node × Node} (mem : place ∈ reached function? node)
    (same : place.2.id = id) (state : σ) :
    ∃ before, look before = look state ∧
      look (node.collect (.ofTotal enter leave) state) = look (enter place.2 before).2 := by
  induction node using Node.children_induction generalizing function? state with
  | step node ih =>
    have untouched {children : List Node} (absent : ∀ child ∈ children, id ∉ child.identities)
        (state : σ) : look (children.foldl
          (fun state child => child.collect (.ofTotal enter leave) state) state) = look state :=
      foldl_collect_untouched enter leave look
        (fun child mem =>
          collect_untouched enter leave look descends others leaves (absent child mem)) state
    rw [Node.collect_eq descends, leaves]
    rcases Inference.mem_reached_iff.1 mem with rfl | ⟨child, visit, below⟩
    · refine ⟨state, rfl, ?_⟩
      unfold afterChildren
      split
      · exact untouched (fun child mem => same ▸ distinct.not_mem_child mem) _
      · rfl
    · have inside := Inference.mem_children_of_mem_visited visit
      have here : id ∈ child.identities :=
        same ▸ Node.id_mem_identities (Inference.mem_preorder_of_mem_reached below)
      have other : node.id ≠ id := fun equal => distinct.not_mem_child inside (equal ▸ here)
      rw [goes node state child visit, afterChildren]
      obtain ⟨front, back, split⟩ := List.append_of_mem inside
      have apart := distinct.pairwise_disjoint
      rw [split, List.pairwise_append, List.pairwise_cons] at apart
      rw [split, List.foldl_append, List.foldl_cons, untouched fun later mem found =>
        apart.2.1.1 later mem here found]
      obtain ⟨before, unchanged, found⟩ := ih child inside (distinct.child inside) below
        (front.foldl (fun state child => child.collect (.ofTotal enter leave) state)
          (enter node state).2)
      refine ⟨before, ?_, found⟩
      rw [unchanged, untouched fun earlier mem found =>
        apart.2.2 earlier mem child List.mem_cons_self found here, others node state other]

end Tables

/-- A tour that only goes to reached nodes keeps what entering and leaving those keep. -/
theorem collect_keeps {σ : Type} {enter : Node → StateM σ Direction} {leave : Node → StateM σ Unit}
    (keeps : σ → Prop) (descends : ∀ node state, (enter node state).1 ≠ .stop)
    (within : ∀ node state, (enter node state).1 = .descend → Inference.passesOver node = false)
    {node : Node} {function? : Option Node}
    (enters : ∀ place ∈ reached function? node, ∀ state, keeps state →
      keeps (enter place.2 state).2)
    (leaves : ∀ place ∈ reached function? node, ∀ state, keeps state →
      keeps (leave place.2 state).2)
    {state : σ} (start : keeps state) : keeps (node.collect (.ofTotal enter leave) state) := by
  induction node using Node.children_induction generalizing function? state with
  | step node ih =>
    have self := Inference.self_mem_reached function? node
    rw [Node.collect_eq descends]
    refine leaves _ self _ ?_
    have entered := enters _ self state start
    cases direction : (enter node state).1 with
    | stop => exact absurd direction (descends node state)
    | pass => exact entered
    | descend =>
      have visits : visited node = node.children := by
        unfold visited
        rw [within node state direction]
        rfl
      have each (child : Node) (mem : child ∈ node.children) (state : σ) (kept : keeps state) :
          keeps (child.collect (.ofTotal enter leave) state) := by
        have below (place : Option Node × Node)
            (inside : place ∈ reached (Inference.functionBelow function? node) child) :
            place ∈ reached function? node :=
          Inference.mem_reached_iff.2 (.inr ⟨child, visits ▸ mem, inside⟩)
        exact ih child mem (fun place inside => enters place (below place inside))
          (fun place inside => leaves place (below place inside)) kept
      change keeps (node.children.foldl _ _)
      generalize node.children = children at each
      generalize (enter node state).2 = between at entered
      induction children generalizing between with
      | nil => exact entered
      | cons child children ih =>
        exact ih (fun other mem => each other (List.mem_cons_of_mem _ mem)) _
          (each child List.mem_cons_self between entered)

/-- The recipe and the value of a node, as far as there are any. -/
def Context.entry (context : Context) (id : NodeId) : Option Thunk × Option Value :=
  (context.thunk? id, context.value? id)

namespace Registration

variable (environment : Environment)

/-- What a state knows about a node. -/
abbrev entry (id : NodeId) (state : State) : Option Thunk × Option Value :=
  state.context.entry id

theorem entry_addThunk {id other : NodeId} (h : id ≠ other) (dependencies : List NodeId)
    (recipe : Recipe) (state : State) :
    entry other (addThunk id dependencies recipe state).2 = entry other state := by
  have unchanged : (state.context.addThunk id { dependencies, recipe }).thunk? other =
      state.context.thunk? other := by
    rw [Context.thunk?_addThunk, if_neg (Ne.symm h)]
  exact Prod.ext unchanged rfl

theorem entry_addValue {id other : NodeId} (h : id ≠ other) (value : Value) (state : State) :
    entry other (addValue id value state).2 = entry other state := by
  have unchanged : (state.context.addValue id value).value? other =
      state.context.value? other := by
    rw [Context.value?_addValue, if_neg (Ne.symm h)]
  exact Prod.ext rfl unchanged

theorem entry_addThunk_self {id : NodeId} {state : State} (empty : entry id state = (none, none))
    (dependencies : List NodeId) (recipe : Recipe) :
    entry id (addThunk id dependencies recipe state).2 =
      (some { dependencies, recipe }, none) := by
  have added : (state.context.addThunk id { dependencies, recipe }).thunk? id =
      some { dependencies, recipe } := by
    rw [Context.thunk?_addThunk, if_pos rfl]
  have absent : state.context.value? id = none := congrArg Prod.snd empty
  exact Prod.ext added absent

theorem entry_addValue_self {id : NodeId} {state : State} (empty : entry id state = (none, none))
    (value : Value) : entry id (addValue id value state).2 = (none, some value) := by
  have added : (state.context.addValue id value).value? id = some value := by
    rw [Context.value?_addValue, if_pos rfl]
  have absent : state.context.thunk? id = none := congrArg Prod.fst empty
  exact Prod.ext absent added

/-- A function is registered as a native one, or with the recipe for its closures. -/
theorem registerFunction_cases (node : Node) (name : String) (parameters body : List Node)
    (state : State) :
    (∃ path, registerFunction environment node name parameters body state =
      addValue node.id (.mk (environment.typeOf node.id) (.builtin path)) state) ∨
    ∃ path, registerFunction environment node name parameters body state =
      addThunk node.id (parameters.filterMap defaultOf?)
        (.closure path (environment.typeOf node.id) node) state := by
  have read : registerFunction environment node name parameters body state =
      (if body.isEmpty && Builtin.isPath (fullName state.enclosing name) then
        addValue node.id (.mk (environment.typeOf node.id)
          (.builtin (fullName state.enclosing name)))
      else
        addThunk node.id (parameters.filterMap defaultOf?)
          (.closure (fullName state.enclosing name) (environment.typeOf node.id) node)) state :=
    rfl
  by_cases native : (body.isEmpty && Builtin.isPath (fullName state.enclosing name)) = true
  · rw [if_pos native] at read
    exact .inl ⟨_, read⟩
  · rw [if_neg native] at read
    exact .inr ⟨_, read⟩

theorem entry_enter (node : Node) (state : State) {id : NodeId} (h : node.id ≠ id) :
    entry id (enter environment node state).2 = entry id state := by
  obtain ⟨self, kind⟩ := node
  cases kind with
  | functionDecl name generics parameters returnType body =>
    rcases registerFunction_cases environment
      (.mk self (.functionDecl name generics parameters returnType body)) name parameters body
      state with ⟨path, registered⟩ | ⟨path, registered⟩
    · exact (congrArg (fun result => entry id result.2) registered).trans
        (entry_addValue h _ state)
    · exact (congrArg (fun result => entry id result.2) registered).trans
        (entry_addThunk h _ _ state)
  | recordDecl name generics declarations => exact entry_addThunk h _ _ state
  | enumerationCase name values => exact entry_addValue h _ state
  | variableDecl name type? initializer? =>
    cases initializer? with
    | none => rfl
    | some initializer => exact entry_addThunk h _ _ state
  | identifier name =>
    unfold enter
    dsimp only [Node.kind_mk, Node.id_mk]
    cases environment.scope.resolve self with
    | none => rfl
    | some declaration => exact entry_addThunk h _ _ state
  | member object name =>
    unfold enter
    dsimp only [Node.kind_mk, Node.id_mk]
    cases environment.scope.resolve self with
    | none => rfl
    | some declaration => exact entry_addThunk h _ _ state
  | call callee arguments => exact entry_addThunk h _ _ state
  | binary operator left right =>
    cases operator <;> exact entry_addThunk h _ _ state
  | assignment target value => exact entry_addThunk h _ _ state
  | literal literal => exact entry_addValue h _ state
  | array elements => exact entry_addThunk h _ _ state
  | _ => rfl

theorem entry_leave (node : Node) (state : State) (id : NodeId) :
    entry id (leave node state).2 = entry id state := by
  unfold leave
  cases node.kind <;> rfl

theorem enter_descends (node : Node) (state : State) :
    (enter environment node state).1 ≠ .stop := by
  obtain ⟨self, kind⟩ := node
  cases kind with
  | variableDecl name type? initializer? => cases initializer? <;> exact nofun
  | identifier name =>
    unfold enter
    dsimp only [Node.kind_mk, Node.id_mk]
    cases environment.scope.resolve self <;> exact nofun
  | member object name =>
    unfold enter
    dsimp only [Node.kind_mk, Node.id_mk]
    cases environment.scope.resolve self <;> exact nofun
  | _ => exact nofun

theorem enter_goes (node : Node) (state : State) (child : Node) (mem : child ∈ visited node) :
    (enter environment node state).1 = .descend := by
  obtain ⟨self, kind⟩ := node
  cases kind with
  | variableDecl name type? initializer? => cases initializer? <;> rfl
  | identifier | member | enumerationCase | typeName | functionType => cases mem
  | _ => rfl

theorem enter_within (node : Node) (state : State)
    (h : (enter environment node state).1 = .descend) : Inference.passesOver node = false := by
  obtain ⟨self, kind⟩ := node
  cases kind with
  | member object name =>
    unfold enter at h
    dsimp only [Node.kind_mk, Node.id_mk] at h
    cases resolved : environment.scope.resolve self <;> rw [resolved] at h <;> cases h
  | enumerationCase | typeName | functionType => cases h
  | _ => rfl

section Entries

variable {root : Node} (distinct : root.Distinct) (scope : Scope) (typing : Typing)
  (solution : Substitution)

include distinct

/-- A reached node has what it was registered with, and had nothing before. -/
theorem entry_ofProgram {place : Option Node × Node} (mem : place ∈ reached none root) :
    ∃ before, entry place.2.id before = (none, none) ∧
      (Context.ofProgram root scope typing solution).entry place.2.id =
        entry place.2.id (enter { scope, typing, solution } place.2 before).2 :=
  collect_reached (enter { scope, typing, solution }) leave (entry place.2.id)
    (enter_descends { scope, typing, solution })
    (fun node state other => entry_enter { scope, typing, solution } node state other)
    (fun node state => entry_leave node state place.2.id)
    (enter_goes { scope, typing, solution }) distinct mem rfl {}

variable {function? : Option Node} {id : NodeId}

theorem entry_literal {literal : Literal}
    (mem : (function?, Node.mk id (.literal literal)) ∈ reached none root) :
    (Context.ofProgram root scope typing solution).entry id =
      (none, some (literalValue literal)) := by
  obtain ⟨before, empty, same⟩ := entry_ofProgram distinct scope typing solution mem
  exact same.trans (entry_addValue_self empty _)

theorem entry_parameter {name : String} {type : Node} {default? : Option Node}
    (mem : (function?, Node.mk id (.parameter name type default?)) ∈ reached none root) :
    (Context.ofProgram root scope typing solution).entry id = (none, none) := by
  obtain ⟨before, empty, same⟩ := entry_ofProgram distinct scope typing solution mem
  exact same.trans empty

theorem entry_identifier {name : String} {declaration : NodeId}
    (mem : (function?, Node.mk id (.identifier name)) ∈ reached none root)
    (resolved : scope.resolve id = some declaration) :
    (Context.ofProgram root scope typing solution).entry id =
      (some { dependencies := [declaration], recipe := .relay }, none) := by
  obtain ⟨before, empty, same⟩ := entry_ofProgram distinct scope typing solution mem
  refine same.trans ?_
  unfold enter
  dsimp only [Node.kind_mk, Node.id_mk]
  rw [resolved]
  exact entry_addThunk_self empty _ _

theorem entry_binary {operator : Operator} {left right : Node}
    (mem : (function?, Node.mk id (.binary operator left right)) ∈ reached none root) :
    (Context.ofProgram root scope typing solution).entry id =
      (some (operatorThunk operator left.id right.id), none) := by
  obtain ⟨before, empty, same⟩ := entry_ofProgram distinct scope typing solution mem
  refine same.trans ?_
  cases operator <;> exact entry_addThunk_self empty _ _

theorem entry_variable {name : String} {type? : Option Node} {initializer : Node}
    (mem : (function?, Node.mk id (.variableDecl name type? (some initializer))) ∈
      reached none root) :
    (Context.ofProgram root scope typing solution).entry id =
      (some { dependencies := [initializer.id], recipe := .relay }, none) := by
  obtain ⟨before, empty, same⟩ := entry_ofProgram distinct scope typing solution mem
  exact same.trans (entry_addThunk_self empty _ _)

theorem entry_uninitialized {name : String} {type? : Option Node}
    (mem : (function?, Node.mk id (.variableDecl name type? none)) ∈ reached none root) :
    (Context.ofProgram root scope typing solution).entry id = (none, none) := by
  obtain ⟨before, empty, same⟩ := entry_ofProgram distinct scope typing solution mem
  exact same.trans empty

end Entries

/-- What is being evaluated in a context, and what was assigned. -/
def rest (context : Context) : Std.TreeSet NodeId × Std.TreeSet NodeId :=
  (context.inProgress, context.rebound)

theorem rest_enter (node : Node) (state : State) :
    rest (enter environment node state).2.context = rest state.context := by
  obtain ⟨self, kind⟩ := node
  cases kind with
  | functionDecl name generics parameters returnType body =>
    rcases registerFunction_cases environment
      (.mk self (.functionDecl name generics parameters returnType body)) name parameters body
      state with ⟨path, registered⟩ | ⟨path, registered⟩ <;>
    exact congrArg (fun result => rest result.2.context) registered
  | variableDecl name type? initializer? => cases initializer? <;> rfl
  | identifier name =>
    unfold enter
    dsimp only [Node.kind_mk, Node.id_mk]
    cases environment.scope.resolve self <;> rfl
  | member object name =>
    unfold enter
    dsimp only [Node.kind_mk, Node.id_mk]
    cases environment.scope.resolve self <;> rfl
  | binary operator left right => cases operator <;> rfl
  | _ => rfl

theorem rest_ofProgram (root : Node) (scope : Scope) (typing : Typing) (solution : Substitution) :
    rest (Context.ofProgram root scope typing solution) = (∅, ∅) :=
  collect_keeps (fun state : State => rest state.context = (∅, ∅))
    (enter_descends { scope, typing, solution }) (enter_within { scope, typing, solution })
    (fun place (_ : place ∈ reached none root) state kept =>
      (rest_enter { scope, typing, solution } place.2 state).trans kept)
    (fun place _ state kept => by
      unfold leave
      cases place.2.kind <;> exact kept)
    rfl

/-- Before anything is evaluated, nothing was assigned. -/
theorem rebound_ofProgram (root : Node) (scope : Scope) (typing : Typing)
    (solution : Substitution) : (Context.ofProgram root scope typing solution).rebound = ∅ :=
  congrArg Prod.snd (rest_ofProgram root scope typing solution)

/-- Before anything is evaluated, nothing is being evaluated. -/
theorem inProgress_ofProgram (root : Node) (scope : Scope) (typing : Typing)
    (solution : Substitution) : (Context.ofProgram root scope typing solution).inProgress = ∅ :=
  congrArg Prod.fst (rest_ofProgram root scope typing solution)

/-- Recipes for functions are about reached nodes. -/
def MakesReached (root : Node) (state : State) : Prop :=
  ∀ id thunk name type declaration, state.context.thunk? id = some thunk →
    thunk.recipe = .closure name type declaration →
      ∃ function?, (function?, declaration) ∈ reached none root

theorem MakesReached.addThunk {root : Node} {state : State} (h : MakesReached root state)
    (id : NodeId) (dependencies : List NodeId) {recipe : Recipe}
    (made : ∀ name type declaration, recipe = .closure name type declaration →
      ∃ function?, (function?, declaration) ∈ reached none root) :
    MakesReached root (addThunk id dependencies recipe state).2 := by
  intro other thunk name type declaration found same
  have found : (state.context.addThunk id { dependencies, recipe }).thunk? other = some thunk :=
    found
  rw [Context.thunk?_addThunk] at found
  split at found
  · cases found
    exact made name type declaration same
  · exact h other thunk name type declaration found same

theorem MakesReached.enter {root : Node} {state : State} (h : MakesReached root state)
    {place : Option Node × Node} (mem : place ∈ reached none root) :
    MakesReached root (enter environment place.2 state).2 := by
  obtain ⟨function?, self, kind⟩ := place
  cases kind with
  | functionDecl name generics parameters returnType body =>
    rcases registerFunction_cases environment
      (.mk self (.functionDecl name generics parameters returnType body)) name parameters body
      state with ⟨path, registered⟩ | ⟨path, registered⟩
    · have kept : MakesReached root (registerFunction environment (.mk self (.functionDecl name
          generics parameters returnType body)) name parameters body state).2 := by
        rw [registered]
        exact h
      exact kept
    · have kept : MakesReached root (registerFunction environment (.mk self (.functionDecl name
          generics parameters returnType body)) name parameters body state).2 := by
        rw [registered]
        refine h.addThunk _ _ fun _ _ declaration same => ?_
        cases same
        exact ⟨function?, mem⟩
      exact kept
  | recordDecl name generics declarations => exact h.addThunk _ _ nofun
  | variableDecl name type? initializer? =>
    cases initializer? with
    | none => exact h
    | some initializer => exact h.addThunk _ _ nofun
  | identifier name =>
    unfold Registration.enter
    dsimp only [Node.kind_mk, Node.id_mk]
    cases environment.scope.resolve self with
    | none => exact h
    | some declaration => exact h.addThunk _ _ nofun
  | member object name =>
    unfold Registration.enter
    dsimp only [Node.kind_mk, Node.id_mk]
    cases environment.scope.resolve self with
    | none => exact h
    | some declaration => exact h.addThunk _ _ nofun
  | call callee arguments => exact h.addThunk _ _ nofun
  | binary operator left right => cases operator <;> exact h.addThunk _ _ nofun
  | assignment target value => exact h.addThunk _ _ nofun
  | array elements => exact h.addThunk _ _ nofun
  | _ => exact h

theorem leave_keeps {root : Node} {state : State} (h : MakesReached root state) (node : Node) :
    MakesReached root (leave node state).2 := by
  unfold leave
  cases node.kind <;> exact h

/-- Before anything is evaluated, recipes for functions are about reached nodes. -/
theorem reached_of_closure {root : Node} {scope : Scope} {typing : Typing}
    {solution : Substitution} {id : NodeId} {thunk : Thunk} {name : String} {type : StaticType}
    {declaration : Node}
    (found : (Context.ofProgram root scope typing solution).thunk? id = some thunk)
    (same : thunk.recipe = .closure name type declaration) :
    ∃ function?, (function?, declaration) ∈ reached none root := by
  have start : MakesReached root {} := fun id thunk name type declaration found => by cases found
  have kept := collect_keeps (MakesReached root) (enter_descends { scope, typing, solution })
    (enter_within { scope, typing, solution })
    (fun _ mem _ kept => MakesReached.enter { scope, typing, solution } kept mem)
    (fun place _ _ kept => leave_keeps kept place.2) start
  exact kept id thunk name type declaration found same

end Registration

namespace Plan

/-- What a plan says about a node. -/
def facts (id : NodeId) (plan : Plan) :
    Option (List NodeId) × Option NodeId × Option (List NodeId) :=
  (plan.subtrees[id]?, plan.targets[id]?, plan.reads[id]?)

theorem getElem?_insert_of_ne {β : Type} (table : Std.TreeMap NodeId β) {id other : NodeId}
    (h : id ≠ other) (value : β) : (table.insert id value)[other]? = table[other]? := by
  rw [Std.TreeMap.getElem?_insert, if_neg (mt Nat.compare_eq_eq.1 h)]

theorem facts_note (scope : Scope) (node : Node) (plan : Plan) {id : NodeId} (h : node.id ≠ id) :
    facts id (plan.note scope node) = facts id plan := by
  unfold note
  split
  · exact Prod.ext (getElem?_insert_of_ne _ h _) rfl
  · exact Prod.ext (getElem?_insert_of_ne _ h _) rfl
  · split
    · exact Prod.ext rfl (Prod.ext (getElem?_insert_of_ne _ h _) rfl)
    · rfl
  · exact Prod.ext rfl (Prod.ext rfl (getElem?_insert_of_ne _ h _))
  · rfl

/-- What the tour does when it enters a node. -/
def enter (scope : Scope) (node : Node) : StateM Plan Direction := do
  modify fun plan => plan.note scope node
  match node.kind with
  | .typeName .. | .functionType .. => return .pass
  | _ => return .descend

theorem enter_snd (scope : Scope) (node : Node) (plan : Plan) :
    (enter scope node plan).2 = plan.note scope node := by
  obtain ⟨self, kind⟩ := node
  cases kind <;> rfl

theorem enter_descends (scope : Scope) (node : Node) (plan : Plan) :
    (enter scope node plan).1 ≠ .stop := by
  obtain ⟨self, kind⟩ := node
  cases kind <;> exact nofun

theorem enter_goes (scope : Scope) (node : Node) (plan : Plan) (child : Node)
    (mem : child ∈ visited node) : (enter scope node plan).1 = .descend := by
  obtain ⟨self, kind⟩ := node
  cases kind with
  | typeName | functionType => cases mem
  | _ => rfl

/-- The plan of a program has the facts about every reached node. -/
theorem facts_build {root : Node} (distinct : root.Distinct) (scope : Scope)
    {place : Option Node × Node} (mem : place ∈ reached none root) :
    ∃ before, facts place.2.id before = (none, none, none) ∧
      facts place.2.id (build root scope) = facts place.2.id (note scope before place.2) := by
  obtain ⟨before, empty, found⟩ := collect_reached (enter scope) (fun _ => return)
    (facts place.2.id) (enter_descends scope)
    (fun node plan other => by rw [enter_snd, facts_note scope node plan other])
    (fun _ _ => rfl) (enter_goes scope) distinct mem rfl {}
  refine ⟨before, empty, found.trans ?_⟩
  rw [enter_snd]

/-- Every target that a plan knows is the target of an assignment in the tree. -/
theorem assignment_of_target? {root : Node} {scope : Scope} {place declaration : NodeId}
    (planned : (build root scope).target? place = some declaration) :
    ∃ node ∈ root.preorder, node.id = place ∧ ∃ target value,
      node.kind = .assignment target value ∧ scope.resolve target.id = some declaration := by
  let keeps (plan : Plan) : Prop := ∀ (place declaration : NodeId),
    plan.targets[place]? = some declaration → ∃ node ∈ root.preorder, node.id = place ∧
      ∃ target value, node.kind = .assignment target value ∧
        scope.resolve target.id = some declaration
  have noted (node : Node) (mem : node ∈ root.preorder) (plan : Plan) (kept : keeps plan) :
      keeps (plan.note scope node) := by
    unfold note
    split
    · exact kept
    · exact kept
    · rename_i target value kind
      split
      · rename_i resolved
        intro place declaration found
        dsimp only at found
        rw [Std.TreeMap.getElem?_insert] at found
        split at found
        · rename_i same
          cases found
          exact ⟨node, mem, Nat.compare_eq_eq.1 same, target, value, kind, resolved⟩
        · exact kept place declaration found
      · exact kept
    · exact kept
    · exact kept
  have entered (node : Node) (mem : node ∈ root.preorder) (plan : Plan) (kept : keeps plan) :
      keeps ((visitor scope).enter node plan).2 := by
    have same : ((visitor scope).enter node plan).2 = (enter scope node plan).2 := rfl
    rw [same, enter_snd]
    exact noted node mem plan kept
  have toured : Step.Keeps keeps (root.tour (visitor scope)) :=
    Node.tour_ensures
      (fun node mem plan kept => ⟨entered node mem plan kept, fun _ _ => trivial⟩)
      fun _ _ _ kept => ⟨kept, fun _ _ => trivial⟩
  exact (toured {} fun _ _ found => by cases found).1 place declaration planned

/-- Every target that a plan knows is a declaration that a reference is resolved to. -/
theorem resolved_of_target? {root : Node} {scope : Scope} {place declaration : NodeId}
    (planned : (build root scope).target? place = some declaration) :
    ∃ reference, scope.resolve reference = some declaration := by
  obtain ⟨_, -, -, target, _, -, resolved⟩ := assignment_of_target? planned
  exact ⟨target.id, resolved⟩

section Facts

variable {root : Node} (distinct : root.Distinct) (scope : Scope) {function? : Option Node}
  {id : NodeId}

include distinct

theorem subtree_function {name : String} {generics parameters body : List Node} {returnType : Node}
    (mem : (function?, Node.mk id (.functionDecl name generics parameters returnType body)) ∈
      reached none root) :
    (build root scope).subtree id =
      (Node.mk id (.functionDecl name generics parameters returnType body)).descendants.map
        Node.id := by
  obtain ⟨before, -, found⟩ := facts_build distinct scope mem
  have entry := congrArg Prod.fst found
  have noted : (build root scope).subtrees[id]? = some _ :=
    entry.trans Std.TreeMap.getElem?_insert_self
  unfold subtree
  rw [noted]
  rfl

theorem subtree_loop {condition : Node} {block : List Node}
    (mem : (function?, Node.mk id (.loop condition block)) ∈ reached none root) :
    (build root scope).subtree id = (condition :: block).flatMap Node.identities := by
  obtain ⟨before, -, found⟩ := facts_build distinct scope mem
  have entry := congrArg Prod.fst found
  have noted : (build root scope).subtrees[id]? = some _ :=
    entry.trans Std.TreeMap.getElem?_insert_self
  unfold subtree
  rw [noted]
  exact Node.map_id_descendants _

theorem target?_assignment {target value : Node} {declaration : NodeId}
    (mem : (function?, Node.mk id (.assignment target value)) ∈ reached none root)
    (resolved : scope.resolve target.id = some declaration) :
    (build root scope).target? id = some declaration := by
  obtain ⟨before, -, found⟩ := facts_build distinct scope mem
  have entry : (build root scope).targets[id]? =
      (before.note scope (.mk id (.assignment target value))).targets[id]? :=
    congrArg (fun facts => facts.2.1) found
  refine entry.trans ?_
  unfold note
  dsimp only [Node.kind_mk, Node.id_mk]
  rw [resolved]
  exact Std.TreeMap.getElem?_insert_self

theorem readsOf_variable {name : String} {type? : Option Node} {initializer : Node}
    (mem : (function?, Node.mk id (.variableDecl name type? (some initializer))) ∈
      reached none root) :
    (build root scope).readsOf id = Strict.reads scope initializer := by
  obtain ⟨before, -, found⟩ := facts_build distinct scope mem
  have entry := congrArg (fun facts => facts.2.2) found
  have noted : (build root scope).reads[id]? = some _ :=
    entry.trans Std.TreeMap.getElem?_insert_self
  unfold readsOf
  rw [noted]
  rfl

end Facts

end Plan

end DeclLang
