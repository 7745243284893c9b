import DeclLang.Proofs.DisciplinedPrograms
import DeclLang.Proofs.SelfContained

/-!
# Programs whose functions are only called

**Input.**  A compiled program.

**Condition.**  `Compilation.FirstOrder`: functions stand outside of each other, occur only where
they are called, and assign only their parameters and their variables with an initializer, which no
initializer reads.  They may call themselves and each other.

**Results.**
* `Compilation.firstOrder_of_isFirstOrder`: `Compilation.isFirstOrder` checks the condition.
* `Compilation.FirstOrder.settle_idle`: assignments settle nothing in such a program.
* `Compilation.function?_inv`, `Compilation.inside_ownData`: what functions are and what they need.
-/

namespace DeclLang

open Inference (reached)

/-- The parameters of a function declaration. -/
def Call.parameterIds (declaration : Node) : List NodeId :=
  (parametersOf declaration).map fun parameter => parameter.1.id

namespace Compilation

variable (compilation : Compilation)

/-- The function that a node is the declaration of, if its value is made when it is asked for. -/
def functionAt? (id : NodeId) : Option Node :=
  match (compilation.context.thunk? id).map Thunk.recipe with
  | some (.closure _ _ declaration) => some declaration
  | _ => none

/-- The function that a node stands for: it is the declaration, or a reference to it. -/
def function? (id : NodeId) : Option Node :=
  (compilation.functionAt? id).or <|
    match compilation.context.thunk? id with
    | some { dependencies := [source], recipe := .relay } => compilation.functionAt? source
    | _ => none

/-- The node belongs to no function. -/
def isOuter (id : NodeId) : Bool :=
  (reached none compilation.root).all fun place => place.2.id != id || place.1.isNone

/-- The function that a thunk calls, the nodes of its arguments, and which of them there are. -/
def callOf? (thunk : Thunk) : Option (Node × List NodeId × List (Option String × Bool)) :=
  match thunk.recipe, thunk.dependencies with
  | .call _ slots, callee :: sources =>
    (compilation.function? callee).map fun function => (function, sources, slots)
  | _, _ => none

/-- The nodes whose values matter for a thunk; what is called is told by the thunk itself. -/
def dataOf (thunk : Thunk) : List NodeId :=
  match compilation.callOf? thunk with
  | some (_, sources, _) => sources
  | none => thunk.sources

/-- The node is a parameter of a function. -/
def Binds (id : NodeId) : Prop :=
  ∃ function?, ∃ function, (function?, function) ∈ reached none compilation.root ∧
    id ∈ Call.parameterIds function

/-- Functions of the program are only called, and assign only what is renewed in every call. -/
structure FirstOrder : Prop where
  /-- Functions belong to no function, and their parameters have no defaults. -/
  functions : ∀ id thunk name type function, compilation.context.thunk? id = some thunk →
    thunk.recipe = .closure name type function →
      compilation.isOuter id = true ∧ thunk.dependencies = []
  parameters : ∀ id, compilation.Binds id → compilation.function? id = none
  /-- Everything else needs nothing but values that are no functions, and calls. -/
  recipes : ∀ id thunk, compilation.context.thunk? id = some thunk →
    compilation.function? id = none → thunk.recipe.isData = true ∧
      ∀ source ∈ compilation.dataOf thunk, compilation.function? source = none
  /-- What is known at first is without functions, and has no recipe. -/
  values : ∀ id value, compilation.context.value? id = some value →
    compilation.context.thunk? id = none ∧ value.inert = true
  /-- What belongs to a function is needed in that function only. -/
  enclosed : ∀ id thunk, compilation.context.thunk? id = some thunk →
    ∀ source ∈ thunk.sources, compilation.isOuter source = true ∨
      ∃ function, compilation.root.Owns function id ∧ compilation.root.Owns function source
  /-- Only calls have functions as operands. -/
  operands : ∀ place ∈ reached none compilation.root,
    (∀ callee arguments, place.2.kind ≠ .call callee arguments) →
      ∀ operand ∈ place.2.operands, compilation.function? operand.id = none
  /-- A function assigns its parameters, and its variables with an initializer. -/
  assigned : ∀ place target, compilation.evaluator.plan.target? place = some target →
    compilation.function? target = none ∧
    (compilation.Binds target ∨ (compilation.context.thunk? target).isSome) ∧
    ∃ function, compilation.root.Owns function place ∧ compilation.root.Owns function target
  /-- No initializer reads what is assigned. -/
  unread : ∀ place target id, compilation.evaluator.plan.target? place = some target →
    target ∉ compilation.evaluator.plan.readsOf id
  /-- No node is needed for its own value, other than by calls. -/
  ranked : ∃ rank : NodeId → Nat, ∀ id thunk, compilation.context.thunk? id = some thunk →
    ∀ source ∈ thunk.sources, rank source < rank id

variable {compilation}

theorem isOuter_iff {id : NodeId} :
    compilation.isOuter id = true ↔ ∀ function, ¬compilation.root.Owns function id := by
  unfold isOuter
  rw [List.all_eq_true]
  constructor
  · rintro all function ⟨node, mem, rfl⟩
    have outside := all _ mem
    simp at outside
  · rintro none ⟨function?, node⟩ mem
    cases function? with
    | none => simp
    | some function =>
      have other : node.id ≠ id := fun same => none function ⟨node, mem, same⟩
      simp [other]

theorem isOuter_eq_false {function : Node} {id : NodeId}
    (owned : compilation.root.Owns function id) : compilation.isOuter id = false :=
  Bool.eq_false_iff.2 fun outer => isOuter_iff.1 outer function owned

/-- Parameters belong to their function. -/
theorem isOuter_of_binds {id : NodeId} (binds : compilation.Binds id) :
    compilation.isOuter id = false := by
  obtain ⟨function?, function, place, mem⟩ := binds
  obtain ⟨parameter, inside, rfl⟩ := List.mem_map.1 mem
  exact isOuter_eq_false ⟨_, reached_parameter place inside, rfl⟩

/-- What stands for a function has a recipe. -/
theorem thunk?_of_function? {id : NodeId} {function : Node}
    (found : compilation.function? id = some function) :
    ∃ thunk, compilation.context.thunk? id = some thunk := by
  cases recipe : compilation.context.thunk? id with
  | some thunk => exact ⟨thunk, rfl⟩
  | none =>
    unfold function? functionAt? at found
    rw [recipe] at found
    cases found

theorem callOf?_inv {thunk : Thunk} {function : Node} {sources : List NodeId}
    {slots : List (Option String × Bool)}
    (called : compilation.callOf? thunk = some (function, sources, slots)) :
    ∃ result callee, thunk = { dependencies := callee :: sources, recipe := .call result slots } ∧
      compilation.function? callee = some function := by
  obtain ⟨dependencies, recipe⟩ := thunk
  unfold callOf? at called
  split at called
  · rename_i result slots callee sources same sameToo
    cases same
    cases sameToo
    obtain ⟨function, found, same⟩ := Option.map_eq_some_iff.1 called
    cases same
    exact ⟨_, _, rfl, found⟩
  · cases called

theorem mem_sources_of_mem_dataOf {thunk : Thunk} {source : NodeId}
    (mem : source ∈ compilation.dataOf thunk) : source ∈ thunk.sources := by
  unfold dataOf at mem
  split at mem
  · rename_i function sources slots called
    obtain ⟨result, callee, rfl, -⟩ := callOf?_inv called
    exact List.mem_append_left _ (List.mem_cons_of_mem _ mem)
  · exact mem

theorem functionAt?_inv {id : NodeId} {function : Node}
    (found : compilation.functionAt? id = some function) :
    ∃ thunk name type, compilation.context.thunk? id = some thunk ∧
      thunk.recipe = .closure name type function := by
  unfold functionAt? at found
  split at found
  · rename_i name type declaration same
    cases found
    obtain ⟨thunk, recipe, same⟩ := Option.map_eq_some_iff.1 same
    exact ⟨thunk, name, type, recipe, same⟩
  · cases found

/-- A node that stands for a function makes its value, or refers to the declaration. -/
theorem function?_inv {id : NodeId} {function : Node}
    (found : compilation.function? id = some function) :
    (∃ thunk name type, compilation.context.thunk? id = some thunk ∧
        thunk.recipe = .closure name type function) ∨
      ∃ source, compilation.context.thunk? id =
          some { dependencies := [source], recipe := .relay } ∧
        compilation.function? source = some function := by
  unfold function? at found
  rcases Option.or_eq_some_iff.1 found with own | ⟨-, refers⟩
  · exact .inl (functionAt?_inv own)
  · split at refers
    · rename_i source same
      refine .inr ⟨source, same, ?_⟩
      unfold function?
      rw [refers]
      rfl
    · cases refers

/-- Nodes of functions that hold data, and need nothing but such nodes and what belongs to no
function. -/
structure Inside (compilation : Compilation) (inside : NodeId → Prop) : Prop where
  inner : ∀ id, inside id → compilation.isOuter id = false
  data : ∀ id, inside id → compilation.function? id = none
  closed : ∀ id thunk, inside id → compilation.context.thunk? id = some thunk →
    ∀ source ∈ compilation.dataOf thunk, compilation.isOuter source = true ∨ inside source

/-- The nodes of a function that hold data. -/
def OwnData (compilation : Compilation) (function : Node) (id : NodeId) : Prop :=
  compilation.root.Owns function id ∧ compilation.function? id = none

theorem inside_nothing (compilation : Compilation) : compilation.Inside fun _ => False :=
  ⟨fun _ => False.elim, fun _ => False.elim, fun _ _ => False.elim⟩

section Consistent

variable (consistent : compilation.Consistent)

include consistent

theorem owner_unique {function other : Node} {id : NodeId}
    (owned : compilation.root.Owns function id) (again : compilation.root.Owns other id) :
    function = other := by
  obtain ⟨node, mem, rfl⟩ := owned
  exact Option.some.inj ((Node.owns_iff consistent.distinct mem).1 again)

/-- A parameter that belongs to a function is one of its parameters. -/
theorem mem_parameterIds_of_binds {function : Node} {id : NodeId}
    (owned : compilation.root.Owns function id) (binds : compilation.Binds id) :
    id ∈ Call.parameterIds function := by
  obtain ⟨function?, other, place, mem⟩ := binds
  obtain ⟨parameter, inside, rfl⟩ := List.mem_map.1 mem
  obtain rfl := owner_unique consistent ⟨_, reached_parameter place inside, rfl⟩ owned
  exact mem

theorem inside_ownData (firstOrder : compilation.FirstOrder) (function : Node) :
    compilation.Inside (compilation.OwnData function) where
  inner _ mem := isOuter_eq_false mem.1
  data _ mem := mem.2
  closed id thunk mem found source below := by
    have data := (firstOrder.recipes id thunk found mem.2).2 source below
    rcases firstOrder.enclosed id thunk found source (mem_sources_of_mem_dataOf below) with
      outer | ⟨owner, owns, ownsToo⟩
    · exact .inl outer
    · exact .inr ⟨owner_unique consistent owns mem.1 ▸ ownsToo, data⟩

end Consistent

section Check

variable (compilation : Compilation)

/-- How often one can go from a node to another one that its recipe needs, as far as one counts. -/
def height : Nat → NodeId → Nat
  | 0, _ => 0
  | count + 1, id =>
    match compilation.context.thunk? id with
    | none => 0
    | some thunk => (thunk.sources.map (height count)).foldl max 0 + 1

/-- Whether both nodes belong to one function. -/
def sharesFunction (id other : NodeId) : Bool :=
  (reached none compilation.root).any fun place =>
    let own := compilation.root.belongings place.2.id
    own.contains id && own.contains other

/-- Whether a recipe is as in a program whose functions are only called. -/
def allowsThunk (id : NodeId) (thunk : Thunk) : Bool :=
  (match thunk.recipe with
    | .closure .. => compilation.isOuter id && thunk.dependencies.isEmpty
    | _ => (compilation.function? id).isSome || thunk.recipe.isData &&
        (compilation.dataOf thunk).all fun source => (compilation.function? source).isNone) &&
  thunk.sources.all fun source =>
    (compilation.isOuter source || compilation.sharesFunction id source) &&
      let height := compilation.height compilation.context.thunks.size
      decide (height source < height id)

/-- Whether a node is as in a program whose functions are only called. -/
def allowsNode (node : Node) : Bool :=
  (Call.parameterIds node).all (fun id => (compilation.function? id).isNone) &&
  match node.kind with
  | .call .. => true
  | _ => node.operands.all fun operand => (compilation.function? operand.id).isNone

/-- Whether an assignment is as in a program whose functions are only called. -/
def allowsAssignment (place target : NodeId) : Bool :=
  (compilation.function? target).isNone &&
  ((reached none compilation.root).any (fun place => (Call.parameterIds place.2).contains target) ||
    (compilation.context.thunk? target).isSome) &&
  compilation.sharesFunction place target &&
  compilation.evaluator.plan.reads.toList.all fun entry => !entry.2.contains target

/-- Whether functions of the program are only called, and assign only what is renewed. -/
def isFirstOrder : Bool :=
  compilation.context.thunks.toList.all (fun entry => compilation.allowsThunk entry.1 entry.2) &&
  compilation.context.values.toList.all (fun entry =>
    (compilation.context.thunk? entry.1).isNone && entry.2.inert) &&
  (reached none compilation.root).all (fun place => compilation.allowsNode place.2) &&
  compilation.evaluator.plan.targets.toList.all fun entry =>
    compilation.allowsAssignment entry.1 entry.2

variable {compilation} (consistent : compilation.Consistent)

include consistent

theorem owned_of_sharesFunction {id other : NodeId} (h : compilation.sharesFunction id other) :
    ∃ function, compilation.root.Owns function id ∧ compilation.root.Owns function other := by
  obtain ⟨place, mem, both⟩ := List.any_eq_true.1 h
  simp only [Bool.and_eq_true, List.contains_iff_mem] at both
  have inside := Inference.mem_preorder_of_mem_reached mem
  exact ⟨place.2, (Node.mem_belongings_iff consistent.distinct inside).1 both.1,
    (Node.mem_belongings_iff consistent.distinct inside).1 both.2⟩

/-- A program that passes the check is as it should be. -/
theorem firstOrder_of_isFirstOrder (h : compilation.isFirstOrder) : compilation.FirstOrder := by
  simp only [isFirstOrder, allowsNode, allowsAssignment, Bool.and_eq_true, Bool.or_eq_true,
    List.all_eq_true, Option.isNone_iff_eq_none, Bool.not_eq_true'] at h
  obtain ⟨⟨⟨thunks, values⟩, nodes⟩, assignments⟩ := h
  have recipes {id : NodeId} {thunk : Thunk} (found : compilation.context.thunk? id = some thunk) :
      compilation.allowsThunk id thunk :=
    thunks (id, thunk) (Std.TreeMap.mem_toList_iff_getElem?_eq_some.2 found)
  have sources {id : NodeId} {thunk : Thunk} (found : compilation.context.thunk? id = some thunk)
      {source : NodeId} (mem : source ∈ thunk.sources) := by
    have own := (Bool.and_eq_true_iff.1 (recipes found)).2
    simpa only [Bool.and_eq_true, Bool.or_eq_true, decide_eq_true_eq] using
      List.all_eq_true.1 own source mem
  have assigns {place target : NodeId}
      (planned : compilation.evaluator.plan.target? place = some target) :=
    assignments (place, target) (Std.TreeMap.mem_toList_iff_getElem?_eq_some.2 planned)
  exact
    { functions := fun id thunk name type function found makes => by
        have own := (Bool.and_eq_true_iff.1 (recipes found)).1
        rw [makes, Bool.and_eq_true, List.isEmpty_iff] at own
        exact own
      parameters := fun id ⟨function?, function, place, mem⟩ => (nodes _ place).1 id mem
      recipes := fun id thunk found data => by
        have own := (Bool.and_eq_true_iff.1 (recipes found)).1
        split at own
        · rename_i name type function makes
          have stands : compilation.functionAt? id = some function := by
            unfold functionAt?
            rw [found, Option.map_some, makes]
          unfold function? at data
          rw [stands] at data
          cases data
        · rw [data] at own
          simpa only [Option.isSome_none, Bool.false_or, Bool.and_eq_true, List.all_eq_true,
            Option.isNone_iff_eq_none] using own
      values := fun id value known =>
        values (id, value) (Std.TreeMap.mem_toList_iff_getElem?_eq_some.2 known)
      enclosed := fun id thunk found source mem =>
        (sources found mem).1.imp_right (owned_of_sharesFunction consistent)
      operands := fun place mem other operand among => by
        have own := (nodes place mem).2
        split at own
        · rename_i callee arguments kind
          exact absurd kind (other callee arguments)
        · simpa only [Option.isNone_iff_eq_none] using List.all_eq_true.1 own operand among
      assigned := fun place target planned => by
        obtain ⟨⟨⟨data, recipe⟩, shared⟩, -⟩ := assigns planned
        refine ⟨data, recipe.imp_left fun binds => ?_, owned_of_sharesFunction consistent shared⟩
        obtain ⟨⟨function?, function⟩, place, mem⟩ := List.any_eq_true.1 binds
        exact ⟨function?, function, place, List.contains_iff_mem.1 mem⟩
      unread := fun place target id planned mem => by
        obtain ⟨-, unread⟩ := assigns planned
        unfold Plan.readsOf at mem
        cases reads : compilation.evaluator.plan.reads[id]? with
        | none =>
          rw [reads] at mem
          exact absurd mem List.not_mem_nil
        | some names =>
          rw [reads] at mem
          have free := unread (id, names) (Std.TreeMap.mem_toList_iff_getElem?_eq_some.2 reads)
          exact Bool.eq_false_iff.1 free (List.contains_iff_mem.2 mem)
      ranked := ⟨compilation.height compilation.context.thunks.size,
        fun id thunk found source mem => (sources found mem).2⟩ }

end Check

end Compilation

namespace Statement

/-- Nothing is settled if nothing pending reads what is affected. -/
theorem settle_idle {plan : Plan} (evaluate : NodeId → Eval Value) {affected : List NodeId}
    (unread : ∀ id, ∀ target ∈ affected, target ∉ plan.readsOf id) (pending : List NodeId) :
    settle plan evaluate affected pending = pure pending := by
  induction pending with
  | nil => rfl
  | cons first pending ih =>
    have idle : (plan.readsOf first).any affected.contains = false := by
      rw [List.any_eq_false]
      intro target mem
      rw [List.contains_iff_mem]
      exact fun affected => unread first target affected mem
    rw [settle, idle, ih]
    rfl

end Statement

/-- Assignments settle nothing. -/
theorem Compilation.FirstOrder.settle_idle {compilation : Compilation}
    (firstOrder : compilation.FirstOrder) {affected : List NodeId}
    (planned : ∀ target ∈ affected,
      ∃ place, compilation.evaluator.plan.target? place = some target)
    (evaluate : NodeId → Eval Value) (pending : List NodeId) :
    Statement.settle compilation.evaluator.plan evaluate affected pending = pure pending := by
  refine Statement.settle_idle evaluate (fun id target mem => ?_) pending
  obtain ⟨place, planned⟩ := planned target mem
  exact firstOrder.unread place target id planned

end DeclLang
