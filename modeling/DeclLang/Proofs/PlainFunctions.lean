import DeclLang.Proofs.ClosedEvaluation
import DeclLang.Proofs.IntactContexts

/-!
# The layout of a plain function

**Input.**  A compiled program, a plain function in it, and a context in which the function is
intact.

**Results.**  The nodes of the function have the recipes that belong to them:
* `Compilation.wiredStatement_of_plain` says so for its statements and their expressions;
* `Compilation.declares_of_plain` says so for its parameters and variables.
-/

namespace DeclLang

open Inference (reached visited functionBelow passesOver)

section Places

variable {root function : Node} {function? : Option Node}

/-- The children of a node belong to the same function. -/
theorem reached_child {node child : Node} (mem : (some function, node) ∈ reached none root)
    (goes : passesOver node = false) (within : functionBelow (some function) node = some function)
    (below : child ∈ node.children) : (some function, child) ∈ reached none root := by
  have visit : child ∈ visited node := by
    unfold visited
    rw [goes]
    exact below
  have next := Inference.mem_reached_of_visited mem visit
  rwa [within] at next

/-- What stands directly in a function belongs to it. -/
theorem reached_of_function {name : String} {generics parameters body : List Node}
    {returnType child : Node}
    (kind : function.kind = .functionDecl name generics parameters returnType body)
    (place : (function?, function) ∈ reached none root) (below : child ∈ function.children) :
    (some function, child) ∈ reached none root := by
  have visit : child ∈ visited function := by
    unfold visited passesOver
    rw [kind]
    exact below
  have next := Inference.mem_reached_of_visited place visit
  unfold functionBelow at next
  rwa [kind] at next

theorem reached_parameter (place : (function?, function) ∈ reached none root)
    {parameter : Node × Bool} (mem : parameter ∈ Call.parametersOf function) :
    (some function, parameter.1) ∈ reached none root := by
  unfold Call.parametersOf at mem
  split at mem
  · rename_i name generics parameters returnType body kind
    obtain ⟨node, inside, rfl⟩ := List.mem_map.1 mem
    refine reached_of_function kind place ?_
    rw [Node.children, kind]
    exact List.mem_append_left _ (List.mem_append_right _ inside)
  · cases mem

theorem reached_statement (place : (function?, function) ∈ reached none root) {statement : Node}
    (mem : statement ∈ Call.bodyOf function) :
    (some function, statement) ∈ reached none root := by
  unfold Call.bodyOf at mem
  split at mem
  · rename_i name generics parameters returnType body kind
    refine reached_of_function kind place ?_
    rw [Node.children, kind]
    exact List.mem_append_right _ (List.mem_cons_of_mem _ mem)
  · cases mem

end Places

namespace Plain

variable {root function : Node} {function? : Option Node} {scope : Scope} {own : List NodeId}
  {id : NodeId}

/-- Every variable that a plain statement declares has a plain initializer. -/
theorem Statement.variable_of_declared {statement : Node} (plain : Statement scope own statement)
    (mem : (some function, statement) ∈ reached none root) (declares : id ∈ declared statement) :
    ∃ name type? initializer, (some function,
      Node.mk id (.variableDecl name type? (some initializer))) ∈ reached none root ∧
        Expression scope own initializer := by
  induction plain with
  | declaration plain =>
    rw [declared] at declares
    cases List.mem_singleton.1 declares
    exact ⟨_, _, _, mem, plain⟩
  | branch plain inside ih =>
    rw [declared] at declares
    obtain ⟨statement, below, declares⟩ := List.mem_flatMap.1 declares
    exact ih statement below
      (reached_child mem rfl rfl (List.mem_cons_of_mem _ below)) declares
  | loop plain inside ih =>
    rw [declared] at declares
    obtain ⟨statement, below, declares⟩ := List.mem_flatMap.1 declares
    exact ih statement below
      (reached_child mem rfl rfl (List.mem_cons_of_mem _ below)) declares
  | _ =>
    simp only [declared] at declares
    cases declares

/-- The declarations of a plain function are parameters, and variables with a plain initializer. -/
theorem Function.own_cases (plain : Function scope function)
    (place : (function?, function) ∈ reached none root) (mem : id ∈ ownDeclarations function) :
    (∃ name type default?, (some function, Node.mk id (.parameter name type default?)) ∈
      reached none root) ∨
    ∃ name type? initializer, (some function,
      Node.mk id (.variableDecl name type? (some initializer))) ∈ reached none root ∧
        Expression scope (ownDeclarations function) initializer := by
  rcases List.mem_append.1 mem with mem | mem
  · obtain ⟨⟨⟨self, kind⟩, hasDefault⟩, inside, rfl⟩ := List.mem_map.1 mem
    have slot := plain.parameters _ inside
    have inside := reached_parameter place inside
    cases kind with
    | parameter name type default? => exact .inl ⟨name, type, default?, inside⟩
    | _ => cases slot
  · obtain ⟨statement, inside, declares⟩ := List.mem_flatMap.1 mem
    exact .inr ((plain.body statement inside).variable_of_declared
      (reached_statement place inside) declares)

theorem Function.declares_of_own (plain : Function scope function)
    (place : (function?, function) ∈ reached none root) (mem : id ∈ ownDeclarations function) :
    root.Declares id := by
  rcases plain.own_cases place mem with ⟨name, type, default?, inside⟩ | ⟨name, _, _, inside, -⟩
  · exact ⟨_, Inference.mem_preorder_of_mem_reached inside, rfl, rfl⟩
  · exact ⟨_, Inference.mem_preorder_of_mem_reached inside, rfl, rfl⟩

end Plain

namespace Compilation

/-- What the execution of a function that starts in a context refers to. -/
def layout (compilation : Compilation) (function : Node) (base : Context) : Layout where
  scope := compilation.scope
  plan := compilation.evaluator.plan
  base
  own := Plain.ownDeclarations function
  nodes := function.descendants.map Node.id

variable {compilation : Compilation} (consistent : compilation.Consistent)
  {function : Node} {function? : Option Node}
  (place : (function?, function) ∈ reached none compilation.root)
  (plain : Plain.Function compilation.scope function) {context : Context}
  (intact : context.Intact compilation function)

include consistent intact

/-- Where a function is intact, its nodes have what they were registered with. -/
theorem thunk?_of_entry {node : Node} {entry : Option Thunk × Option Value}
    (mem : (some function, node) ∈ reached none compilation.root)
    (registered : (Context.ofProgram compilation.root compilation.scope compilation.typing
      compilation.solution).entry node.id = entry) : context.thunk? node.id = entry.1 := by
  rw [intact.recipes node.id ⟨node, mem, rfl⟩, consistent.context]
  exact congrArg Prod.fst registered

include place plain

theorem wired_of_plain {node : Node}
    (h : Plain.Expression compilation.scope (Plain.ownDeclarations function) node)
    (mem : (some function, node) ∈ reached none compilation.root) :
    (compilation.layout function context).Wired node := by
  have apart {node : Node} (mem : (some function, node) ∈ reached none compilation.root)
      (unnamed : node.declaredName? = none) : node.id ∉ Plain.ownDeclarations function :=
    fun own => Node.not_declares consistent.distinct (Inference.mem_preorder_of_mem_reached mem)
      unnamed (plain.declares_of_own place own)
  induction h with
  | literal =>
    exact .literal (apart mem rfl)
      (thunk?_of_entry consistent intact mem
        (Registration.entry_literal consistent.distinct _ _ _ mem))
      (intact.literals _ _ mem)
  | identifier resolved own =>
    exact .identifier (apart mem rfl) resolved own
      (thunk?_of_entry consistent intact mem
        (Registration.entry_identifier consistent.distinct _ _ _ mem resolved))
  | binary first second ihFirst ihSecond =>
    exact .binary (apart mem rfl)
      (thunk?_of_entry consistent intact mem
        (Registration.entry_binary consistent.distinct _ _ _ mem))
      (ihFirst (reached_child mem rfl rfl List.mem_cons_self))
      (ihSecond (reached_child mem rfl rfl (List.mem_cons_of_mem _ List.mem_cons_self)))

omit place plain intact in
/-- No statement of a block assigns what is inside of a loop of a later one. -/
theorem sheltered_of_siblings {outer : Node} (mem : outer ∈ compilation.root.preorder)
    {block : List Node} (part : block.Sublist outer.children) :
    (compilation.layout function context).Sheltered block := by
  refine List.pairwise_iff_forall_sublist.2 fun {statement later} pair declaration among inLoop => ?_
  obtain ⟨place, inside, planned⟩ := List.mem_filterMap.1 among
  change compilation.evaluator.plan.target? place = some declaration at planned
  rw [consistent.plan] at planned
  obtain ⟨node, inRoot, rfl, target, value, kind, resolved⟩ := Plan.assignment_of_target? planned
  obtain ⟨other, below, sameId⟩ := List.mem_map.1 inside
  obtain ⟨loop, inLater, isBlock, deeper⟩ := Node.exists_of_mem_looped inLoop
  have parts : (statement.preorder ++ later.preorder).Sublist compilation.root.preorder := by
    have siblings := (pair.trans part).flatMap Node.preorder
    rw [List.flatMap_cons, List.flatMap_singleton] at siblings
    refine siblings.trans (List.Sublist.trans ?_ (Node.preorder_sublist mem))
    rw [Node.preorder_eq outer]
    exact List.sublist_cons_self _ _
  obtain rfl := Node.eq_of_id_eq consistent.distinct
    (parts.subset (List.mem_append_left _ below)) inRoot sameId
  have inStatement : target ∈ statement.preorder := by
    refine Node.mem_preorder_trans below (Node.mem_preorder_of_mem_children ?_
      target.self_mem_preorder)
    rw [Node.children, kind]
    exact List.mem_cons_self
  have order : [target, loop].Sublist compilation.root.preorder :=
    ((List.singleton_sublist.2 inStatement).append (List.singleton_sublist.2 inLater)).trans parts
  exact List.pairwise_iff_forall_sublist.1 consistent.sheltered order declaration resolved isBlock
    deeper

theorem wiredStatement_of_plain {statement : Node}
    (h : Plain.Statement compilation.scope (Plain.ownDeclarations function) statement)
    (mem : (some function, statement) ∈ reached none compilation.root)
    (own : Plain.declared statement ⊆ Plain.ownDeclarations function) :
    (compilation.layout function context).WiredStatement statement := by
  have wired {id : NodeId} {kind : Kind Node} {node : Node}
      (goes : passesOver (.mk id kind) = false)
      (within : functionBelow (some function) (.mk id kind) = some function)
      (mem : (some function, Node.mk id kind) ∈ reached none compilation.root)
      (below : node ∈ kind.children)
      (h : Plain.Expression compilation.scope (Plain.ownDeclarations function) node) :=
    wired_of_plain consistent place plain intact h (reached_child mem goes within below)
  -- The statements of a block declare what the block declares.
  have inner {block : List Node} (own : block.flatMap Plain.declared ⊆
      Plain.ownDeclarations function) {statement : Node} (mem : statement ∈ block) :
      Plain.declared statement ⊆ Plain.ownDeclarations function :=
    fun id declared => own (List.mem_flatMap.2 ⟨statement, mem, declared⟩)
  induction h with
  | declaration plain =>
    rw [Plain.declared] at own
    refine .declaration (own List.mem_cons_self)
      (thunk?_of_entry consistent intact mem
        (Registration.entry_variable consistent.distinct _ _ _ mem)) ?_
      (wired rfl rfl mem (List.mem_append_right _ List.mem_cons_self) plain)
    change compilation.evaluator.plan.readsOf _ = _
    rw [consistent.plan]
    exact Plan.readsOf_variable consistent.distinct _ mem
  | branch plain inside ih =>
    rw [Plain.declared] at own
    exact .branch (wired rfl rfl mem List.mem_cons_self plain)
      (sheltered_of_siblings consistent (Inference.mem_preorder_of_mem_reached mem)
        (List.sublist_cons_self _ _)) fun statement below =>
          ih statement below (reached_child mem rfl rfl (List.mem_cons_of_mem _ below))
            (inner own below)
  | loop plain inside ih =>
    rw [Plain.declared] at own
    refine .loop ?_ (wired rfl rfl mem List.mem_cons_self plain)
      (sheltered_of_siblings consistent (Inference.mem_preorder_of_mem_reached mem)
        (List.sublist_cons_self _ _)) fun statement below =>
          ih statement below (reached_child mem rfl rfl (List.mem_cons_of_mem _ below))
            (inner own below)
    change compilation.evaluator.plan.subtree _ = _
    rw [consistent.plan]
    exact Plan.subtree_loop consistent.distinct _ mem
  | returnUnit => exact .returnUnit
  | returnValue plain => exact .returnValue (wired rfl rfl mem List.mem_cons_self plain)
  | assignment resolved target plain =>
    have mem := reached_child mem rfl rfl List.mem_cons_self
    refine .assignment resolved ?_ target
      (wired rfl rfl mem (List.mem_cons_of_mem _ List.mem_cons_self) plain)
    change compilation.evaluator.plan.target? _ = _
    rw [consistent.plan]
    exact Plan.target?_assignment consistent.distinct _ mem resolved
  | expression plain => exact .expression (wired rfl rfl mem List.mem_cons_self plain)

/-- The statements of a plain function are wired. -/
theorem wired_of_body {statement : Node} (mem : statement ∈ Call.bodyOf function) :
    (compilation.layout function context).WiredStatement statement :=
  wiredStatement_of_plain consistent place plain intact (plain.body statement mem)
    (reached_statement place mem)
    fun _ declared => List.mem_append_right _ (List.mem_flatMap.2 ⟨statement, mem, declared⟩)

omit plain intact in
/-- No statement of a function assigns what is inside of a loop of a later one. -/
theorem sheltered_of_body :
    (compilation.layout function context).Sheltered (Call.bodyOf function) := by
  refine sheltered_of_siblings consistent (Inference.mem_preorder_of_mem_reached place) ?_
  unfold Call.bodyOf
  split
  · rename_i name generics parameters returnType body kind
    rw [Node.children, kind]
    exact (List.sublist_cons_self _ _).trans (List.sublist_append_right _ _)
  · exact List.nil_sublist _

theorem declares_of_plain : (compilation.layout function context).Declares := by
  intro id mem
  rcases plain.own_cases place mem with ⟨_, _, _, inside⟩ | ⟨_, _, initializer, inside, plainly⟩
  · exact .inl (thunk?_of_entry consistent intact inside
      (Registration.entry_parameter consistent.distinct _ _ _ inside))
  · refine .inr ⟨initializer, wired_of_plain consistent place plain intact plainly
      (reached_child inside rfl rfl (List.mem_append_right _ List.mem_cons_self)), ?_⟩
    exact thunk?_of_entry consistent intact inside
      (Registration.entry_variable consistent.distinct _ _ _ inside)

end Compilation

end DeclLang
