import DeclLang.Proofs.Registered

/-!
# Where recipes and first values come from

**Input.**  The context of a program before anything is evaluated.

**Results.**  `Registration.sources_ofProgram`: every recipe in it is the one that some reached node
is registered with (`Registration.Registers`), and every value in it belongs to a literal, to an
enumeration case or to a native function (`Registration.Holds`).  `Registration.thunk?_call` and
`Registration.thunk?_record` are the recipes of calls and of records.
-/

namespace DeclLang

open Inference (reached)

namespace Registration

variable (environment : Environment)

/-- The recipe that a node is registered with. -/
inductive Registers : Node → Thunk → Prop
  | function {id : NodeId} {name path : String} {generics parameters body : List Node}
    {returnType : Node} :
    Registers (.mk id (.functionDecl name generics parameters returnType body))
      { dependencies := parameters.filterMap defaultOf?
        recipe := .closure path (environment.typeOf id)
          (.mk id (.functionDecl name generics parameters returnType body)) }
  | record {id : NodeId} {name : String} {generics declarations : List Node}
    {fields : List (NodeId × Slot)}
    (slots : fields = declarations.filterMap fun field =>
      field.fieldSlot?.map fun slot => (field.id, slot)) :
    Registers (.mk id (.recordDecl name generics declarations))
      { dependencies := (fields.filter fun field => field.2.hasDefault).map Prod.fst
        recipe := .recordConstructor (environment.typeOf id) id
          (fields.map fun field => (field.2.name, field.2.hasDefault)) }
  | variable {id : NodeId} {name : String} {type? : Option Node} {initializer : Node} :
    Registers (.mk id (.variableDecl name type? (some initializer)))
      { dependencies := [initializer.id], recipe := .relay }
  | identifier {id declaration : NodeId} {name : String}
    (resolved : environment.scope.resolve id = some declaration) :
    Registers (.mk id (.identifier name)) { dependencies := [declaration], recipe := .relay }
  | member {id declaration : NodeId} {object : Node} {name : String}
    (resolved : environment.scope.resolve id = some declaration) :
    Registers (.mk id (.member object name)) { dependencies := [declaration], recipe := .relay }
  | call {id : NodeId} {callee : Node} {arguments : List Node}
    {written : List (Option String × Node)} (labeled : written = arguments.map labeledExpression) :
    Registers (.mk id (.call callee arguments))
      { dependencies := callee.id :: (written.filter fun argument =>
          !isPlaceholder argument.2).map fun argument => argument.2.id
        recipe := .call (environment.typeOf id)
          (written.map fun argument => (argument.1, !isPlaceholder argument.2)) }
  | binary {id : NodeId} {operator : Operator} {left right : Node} :
    Registers (.mk id (.binary operator left right)) (operatorThunk operator left.id right.id)
  | assignment {id : NodeId} {target value : Node} :
    Registers (.mk id (.assignment target value))
      { dependencies := [value.id], recipe := .relay }
  | array {id : NodeId} {elements : List Node} :
    Registers (.mk id (.array elements))
      { dependencies := elements.map Node.id, recipe := .array (environment.typeOf id) }

/-- The value that a node is registered with. -/
inductive Holds : Node → Value → Prop
  | literal {id : NodeId} {literal : Literal} :
    Holds (.mk id (.literal literal)) (literalValue literal)
  | enumerationCase {id : NodeId} {name : String} {values : List Node} :
    Holds (.mk id (.enumerationCase name values))
      (.mk (environment.typeOf id) (.caseConstructor name))
  | native {id : NodeId} {name path : String} {generics parameters : List Node}
    {returnType : Node} :
    Holds (.mk id (.functionDecl name generics parameters returnType []))
      (.mk (environment.typeOf id) (.builtin path))

/-- What a context knows comes from reached nodes. -/
structure Sources (root : Node) (context : Context) : Prop where
  thunks : ∀ id thunk, context.thunk? id = some thunk →
    ∃ place ∈ reached none root, place.2.id = id ∧ Registers environment place.2 thunk
  values : ∀ id value, context.value? id = some value →
    ∃ place ∈ reached none root, place.2.id = id ∧ Holds environment place.2 value

section

variable {environment} {root : Node} {context : Context}
  (sources : Sources environment root context)
  {place : Option Node × Node} (mem : place ∈ reached none root)

include sources mem

theorem Sources.addThunk {dependencies : List NodeId} {recipe : Recipe}
    (registers : Registers environment place.2 { dependencies, recipe }) :
    Sources environment root (context.addThunk place.2.id { dependencies, recipe }) where
  thunks id thunk found := by
    rw [Context.thunk?_addThunk] at found
    split at found
    · rename_i same
      cases found
      exact ⟨place, mem, same.symm, registers⟩
    · exact sources.thunks id thunk found
  values := sources.values

theorem Sources.addValue {value : Value} (holds : Holds environment place.2 value) :
    Sources environment root (context.addValue place.2.id value) where
  thunks := sources.thunks
  values id other known := by
    rw [Context.value?_addValue] at known
    split at known
    · rename_i same
      cases known
      exact ⟨place, mem, same.symm, holds⟩
    · exact sources.values id other known

end

/-- Entering a reached node registers what belongs to it. -/
theorem Sources.enter {root : Node} {state : State}
    (sources : Sources environment root state.context) {place : Option Node × Node}
    (mem : place ∈ reached none root) :
    Sources environment root (enter environment place.2 state).2.context := by
  obtain ⟨function?, id, kind⟩ := place
  cases kind with
  | functionDecl name generics parameters returnType body =>
    change Sources environment root (registerFunction environment _ name parameters body
      state).2.context
    have read : registerFunction environment
        (.mk id (.functionDecl name generics parameters returnType body)) name parameters body
        state = (if body.isEmpty && Builtin.isPath (fullName state.enclosing name) then
          Registration.addValue id (.mk (environment.typeOf id)
            (.builtin (fullName state.enclosing name)))
        else
          Registration.addThunk id (parameters.filterMap defaultOf?)
            (.closure (fullName state.enclosing name) (environment.typeOf id)
              (.mk id (.functionDecl name generics parameters returnType body)))) state := rfl
    rw [read]
    split
    · rename_i native
      simp only [Bool.and_eq_true, List.isEmpty_iff] at native
      obtain ⟨rfl, -⟩ := native
      exact sources.addValue mem .native
    · exact sources.addThunk mem .function
  | recordDecl name generics declarations => exact sources.addThunk mem (.record rfl)
  | enumerationCase name values => exact sources.addValue mem .enumerationCase
  | variableDecl name type? initializer? =>
    cases initializer? with
    | none => exact sources
    | some initializer => exact sources.addThunk mem .variable
  | identifier name =>
    unfold Registration.enter
    dsimp only [Node.kind_mk, Node.id_mk]
    cases resolved : environment.scope.resolve id with
    | none => exact sources
    | some declaration => exact sources.addThunk mem (.identifier resolved)
  | member object name =>
    unfold Registration.enter
    dsimp only [Node.kind_mk, Node.id_mk]
    cases resolved : environment.scope.resolve id with
    | none => exact sources
    | some declaration => exact sources.addThunk mem (.member resolved)
  | call callee arguments => exact sources.addThunk mem (.call rfl)
  | binary operator left right =>
    have registers : Registers environment (.mk id (.binary operator left right))
      (operatorThunk operator left.id right.id) := .binary
    cases operator <;> exact sources.addThunk mem registers
  | assignment target value => exact sources.addThunk mem .assignment
  | literal literal => exact sources.addValue mem .literal
  | array elements => exact sources.addThunk mem .array
  | _ => exact sources

/-- Before anything is evaluated, recipes and values come from reached nodes. -/
theorem sources_ofProgram (root : Node) (scope : Scope) (typing : Typing)
    (solution : Substitution) :
    Sources { scope, typing, solution } root (Context.ofProgram root scope typing solution) := by
  have start : Sources { scope, typing, solution } root ({} : State).context :=
    ⟨nofun, nofun⟩
  exact collect_keeps (fun state : State => Sources { scope, typing, solution } root state.context)
    (enter_descends { scope, typing, solution }) (enter_within { scope, typing, solution })
    (fun _ mem _ kept => Sources.enter { scope, typing, solution } kept mem)
    (fun place _ state kept => by
      unfold leave
      cases place.2.kind <;> exact kept)
    start

section Entries

variable {root : Node} (distinct : root.Distinct) (scope : Scope) (typing : Typing)
  (solution : Substitution) {function? : Option Node} {id : NodeId}

include distinct

theorem thunk?_call {callee : Node} {arguments : List Node}
    (mem : (function?, Node.mk id (.call callee arguments)) ∈ reached none root) :
    (Context.ofProgram root scope typing solution).thunk? id = some
      { dependencies := callee.id :: ((arguments.map labeledExpression).filter fun argument =>
          !isPlaceholder argument.2).map fun argument => argument.2.id
        recipe := .call (Environment.typeOf { scope, typing, solution } id)
          ((arguments.map labeledExpression).map fun argument =>
            (argument.1, !isPlaceholder argument.2)) } := by
  obtain ⟨before, empty, same⟩ := entry_ofProgram distinct scope typing solution mem
  exact congrArg Prod.fst (same.trans (entry_addThunk_self empty _ _))

theorem thunk?_record {name : String} {generics declarations : List Node}
    (mem : (function?, Node.mk id (.recordDecl name generics declarations)) ∈
      reached none root) :
    ∃ dependencies, (Context.ofProgram root scope typing solution).thunk? id = some
      { dependencies
        recipe := .recordConstructor (Environment.typeOf { scope, typing, solution } id) id
          ((declarations.filterMap Node.fieldSlot?).map fun slot =>
            (slot.name, slot.hasDefault)) } ∧
      dependencies.length =
        ((declarations.filterMap Node.fieldSlot?).filter Slot.hasDefault).length := by
  obtain ⟨before, empty, same⟩ := entry_ofProgram distinct scope typing solution mem
  have found := congrArg Prod.fst (same.trans (entry_addThunk_self empty _ _))
  have slots : (declarations.filterMap fun field =>
      field.fieldSlot?.map fun slot => (field.id, slot)).map Prod.snd =
        declarations.filterMap Node.fieldSlot? := by
    rw [List.map_filterMap]
    congr 1
    funext field
    cases field.fieldSlot? <;> rfl
  rw [← slots, List.map_map, List.filter_map, List.length_map]
  exact ⟨_, found, List.length_map _⟩

end Entries

end Registration

end DeclLang
