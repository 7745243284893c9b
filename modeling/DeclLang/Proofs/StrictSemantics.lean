import DeclLang.Evaluation.Registration
import DeclLang.Proofs.Trees

/-!
# Strict execution of plain functions

A plain function declares variables with initializers, branches, loops, returns, assigns to its own
parameters and variables, and evaluates expressions of literals, identifiers and binary operators.
Such a function can be read like an ordinary imperative program.

**Input.**  A plain function, the scopes in which its identifiers are resolved, limits, and a value
for every parameter.

**Algorithm.**  A store holds the values of declarations.  An initializer is evaluated once, where
the variable is declared; an assignment gives a declaration a value in the store; `and` and `or`
only evaluate their right operand if the left one does not decide.  The variables declared inside a
loop are dropped after every turn.  A function that ends without a return gives the unit value, and
a loop whose condition still holds after the allowed number of turns fails.

A variable may be assigned by its path before its declaration is executed.  `Strict.Early` says what
the declaration does then: in a textbook the initializer replaces the value, but an initializer that
is only evaluated when its variable has no value leaves it as it is.  Both readings are the same
where no assignment stands in front of the declaration of its target
(`Plain.call_replaced_eq_kept`).

Nothing is deferred or kept here: neither thunks nor contexts nor pending variables occur.
-/

namespace DeclLang

/-- The values of declarations, as far as they have one. -/
abbrev Store := NodeId → Option Value

namespace Store

/-- Gives a declaration a value. -/
def set (store : Store) (id : NodeId) (value : Value) : Store :=
  fun other => if other = id then some value else store other

/-- Drops the values of declarations. -/
def without (store : Store) (ids : List NodeId) : Store :=
  fun id => if id ∈ ids then none else store id

theorem set_self (store : Store) (id : NodeId) (value : Value) :
    store.set id value id = some value :=
  if_pos rfl

theorem set_of_ne (store : Store) {id other : NodeId} (value : Value) (h : other ≠ id) :
    store.set id value other = store other :=
  if_neg h

/-- A declaration that has a value is another one than one without. -/
theorem ne_of_unset {store : Store} {id other : NodeId} {value : Value} (unset : store id = none)
    (known : store other = some value) : other ≠ id := by
  rintro rfl
  rw [unset] at known
  cases known

theorem without_of_mem (store : Store) {ids : List NodeId} {id : NodeId} (h : id ∈ ids) :
    store.without ids id = none :=
  if_pos h

theorem without_of_not_mem (store : Store) {ids : List NodeId} {id : NodeId} (h : id ∉ ids) :
    store.without ids id = store id :=
  if_neg h

/-- The store of a list of declarations with their values. -/
def ofBindings (bindings : List (NodeId × Value)) : Store :=
  bindings.foldl (fun store binding => store.set binding.1 binding.2) fun _ => none

end Store

namespace Strict

/-- How statements end: with a store, or with a returned value. -/
inductive Flow where
  | next (store : Store)
  | returned (value : Value)

/-- A value as a condition. -/
def truth (value : Value) : Except EvalError Bool :=
  match value.boolean? with
  | some b => .ok b
  | none => .error (.notABoolean value.text)

/-- The value of the left operand that decides without the right one. -/
def decisive? : Operator → Option Bool
  | .and => some false
  | .or => some true
  | _ => none

/-- The value of an expression. -/
def evaluate (scope : Scope) (store : Store) : Node → Except EvalError Value
  | .mk _ (.literal literal) => .ok (Registration.literalValue literal)
  | .mk id (.identifier _) =>
    match (scope.resolve id).bind store with
    | some value => .ok value
    | none => .error (.missingValue id)
  | .mk _ (.binary operator left right) =>
    match decisive? operator with
    | some decisive => do
      let holds ← truth (← evaluate scope store left)
      if holds = decisive then return .boolean holds
      else return .boolean (← truth (← evaluate scope store right))
    | none => do
      operator.apply (← evaluate scope store left) (← evaluate scope store right)
  | .mk id _ => .error (.missingValue id)

/-- Runs a loop whose condition may hold as often as `turns` says. -/
def repeatLoop (overrun : EvalError) (locals : List NodeId)
    (condition : Store → Except EvalError Bool) (body : Store → Except EvalError Flow) :
    Nat → Store → Except EvalError Flow
  | 0, store => do
    if ← condition store then throw overrun else return .next store
  | turns + 1, store => do
    if ← condition store then
      match ← body store with
      | .next after => repeatLoop overrun locals condition body turns (after.without locals)
      | .returned value => return .returned value
    else
      return .next store

/-- What becomes of the value of a variable that was assigned before its declaration is executed:
the initializer replaces it, or it is kept. -/
inductive Early where
  | replaced
  | kept
  deriving DecidableEq

/-- Whether the declaration of a variable that may have a value evaluates the initializer. -/
def Early.initializes : Early → Option Value → Bool
  | .replaced, _ => true
  | .kept, value? => value?.isNone

mutual

/-- Executes a statement. -/
def execute (early : Early) (scope : Scope) (limits : Limits) :
    Node → Store → Except EvalError Flow
  | .mk id (.variableDecl _ _ (some initializer)), store => do
    if early.initializes (store id) then
      return .next (store.set id (← evaluate scope store initializer))
    else
      return .next store
  | .mk _ (.branch condition block), store => do
    if ← truth (← evaluate scope store condition) then
      executeBlock early scope limits block store
    else
      return .next store
  | .mk id (.loop condition block), store =>
    repeatLoop (Statement.overrun limits)
      ((Node.mk id (.loop condition block)).descendants.map Node.id)
      (fun store => do truth (← evaluate scope store condition))
      (fun store => executeBlock early scope limits block store)
      (limits.iterations.getD limits.patience) store
  | .mk _ (.returnStatement none), _ => return .returned .unit
  | .mk _ (.returnStatement (some expression)), store => do
    return .returned (← evaluate scope store expression)
  | .mk _ (.expressionStatement (.mk id (.assignment target value))), store => do
    let value ← evaluate scope store value
    match scope.resolve target.id with
    | some declaration => return .next (store.set declaration value)
    | none => throw (.unboundAssignment id)
  | .mk _ (.expressionStatement expression), store => do
    let _ ← evaluate scope store expression
    return .next store
  | _, store => return .next store

/-- Executes statements in order until one returns. -/
def executeBlock (early : Early) (scope : Scope) (limits : Limits) :
    List Node → Store → Except EvalError Flow
  | [], store => return .next store
  | statement :: statements, store => do
    match ← execute early scope limits statement store with
    | .next store => executeBlock early scope limits statements store
    | .returned value => return .returned value

end

/-- A statement that is an expression, and no assignment, changes nothing. -/
theorem execute_expressionStatement (early : Early) (scope : Scope) (limits : Limits)
    (id : NodeId) {expression : Node} (plain : ∀ target value, expression.kind ≠ .assignment target value)
    (store : Store) :
    execute early scope limits (.mk id (.expressionStatement expression)) store = (do
      let _ ← evaluate scope store expression
      return .next store) := by
  rw [execute]
  rintro inner target value rfl
  exact plain target value rfl

/-- Calls a function with a value for every parameter. -/
def call (early : Early) (scope : Scope) (limits : Limits) (function : Node)
    (values : List Value) : Except EvalError Value := do
  let parameters := (Call.parametersOf function).map fun parameter => parameter.1.id
  match ← executeBlock early scope limits (Call.bodyOf function)
      (Store.ofBindings (parameters.zip values)) with
  | .returned value => return value
  | .next _ => return .unit

section Evaluates

variable {scope : Scope} {store : Store}

/-- `Evaluates scope store e v`: the expression has the value `v`.  This says how
`Strict.evaluate` comes to a value. -/
inductive Evaluates (scope : Scope) (store : Store) : Node → Value → Prop
  | literal {id : NodeId} {literal : Literal} :
    Evaluates scope store (.mk id (.literal literal)) (Registration.literalValue literal)
  | identifier {id declaration : NodeId} {name : String} {value : Value}
    (resolved : scope.resolve id = some declaration) (known : store declaration = some value) :
    Evaluates scope store (.mk id (.identifier name)) value
  | decided {id : NodeId} {operator : Operator} {left right : Node} {b : Bool} {value : Value}
    (decides : decisive? operator = some b) (first : Evaluates scope store left value)
    (holds : value.boolean? = some b) :
    Evaluates scope store (.mk id (.binary operator left right)) (.boolean b)
  | undecided {id : NodeId} {operator : Operator} {left right : Node} {b : Bool}
    {value other : Value} (decides : decisive? operator = some (!b))
    (first : Evaluates scope store left value) (holds : value.boolean? = some b)
    (second : Evaluates scope store right other) {c : Bool} (result : other.boolean? = some c) :
    Evaluates scope store (.mk id (.binary operator left right)) (.boolean c)
  | applied {id : NodeId} {operator : Operator} {left right : Node} {value other result : Value}
    (strict : decisive? operator = none) (first : Evaluates scope store left value)
    (second : Evaluates scope store right other)
    (apply : operator.apply value other = .ok result) :
    Evaluates scope store (.mk id (.binary operator left right)) result

theorem truth_ok {value : Value} {b : Bool} (h : truth value = .ok b) :
    value.boolean? = some b := by
  unfold truth at h
  split at h
  · rename_i found
    cases h
    exact found
  · cases h

theorem bind_ok {ε α β : Type} {step : Except ε α} {next : α → Except ε β} {b : β}
    (h : (step >>= next) = .ok b) : ∃ a, step = .ok a ∧ next a = .ok b := by
  cases step with
  | error error => cases h
  | ok a => exact ⟨a, rfl, h⟩

theorem evaluates_of_evaluate {node : Node} {value : Value}
    (h : evaluate scope store node = .ok value) : Evaluates scope store node value := by
  induction node using Node.children_induction generalizing value with
  | step node ih =>
    obtain ⟨id, kind⟩ := node
    cases kind with
    | literal literal =>
      cases h
      exact .literal
    | identifier name =>
      simp only [evaluate] at h
      split at h
      · rename_i found
        obtain ⟨declaration, resolved, known⟩ := Option.bind_eq_some_iff.1 found
        cases h
        exact .identifier resolved known
      · cases h
    | binary operator left right =>
      have onLeft {value : Value} (h : evaluate scope store left = .ok value) :=
        ih left List.mem_cons_self h
      have onRight {value : Value} (h : evaluate scope store right = .ok value) :=
        ih right (List.mem_cons_of_mem _ List.mem_cons_self) h
      simp only [evaluate] at h
      split at h
      · rename_i decisive decides
        obtain ⟨a, first, h⟩ := bind_ok h
        obtain ⟨b, holds, h⟩ := bind_ok h
        by_cases same : b = decisive
        · subst same
          rw [if_pos rfl] at h
          cases h
          exact .decided decides (onLeft first) (truth_ok holds)
        · rw [if_neg same] at h
          obtain ⟨c, second, h⟩ := bind_ok h
          obtain ⟨d, result, h⟩ := bind_ok h
          cases h
          have opposite : decisive = !b := by
            cases decisive <;> cases b <;> simp_all
          exact .undecided (opposite ▸ decides) (onLeft first) (truth_ok holds) (onRight second)
            (truth_ok result)
      · rename_i decides
        obtain ⟨a, first, h⟩ := bind_ok h
        obtain ⟨c, second, h⟩ := bind_ok h
        exact .applied decides (onLeft first) (onRight second) h
    | _ => cases h

/-- The declarations that the identifiers in a tree refer to. -/
def reads (scope : Scope) (node : Node) : List NodeId :=
  node.preorder.filterMap fun part => scope.resolve part.id

theorem mem_reads {node part : Node} {declaration : NodeId} (h : part ∈ node.preorder)
    (resolved : scope.resolve part.id = some declaration) : declaration ∈ reads scope node :=
  List.mem_filterMap.2 ⟨part, h, resolved⟩

theorem reads_subset {node inner : Node} (h : inner ∈ node.preorder) :
    reads scope inner ⊆ reads scope node := by
  intro declaration mem
  obtain ⟨part, inside, resolved⟩ := List.mem_filterMap.1 mem
  exact mem_reads (Node.mem_preorder_trans h inside) resolved

/-- An expression keeps its value if the declarations that it reads keep theirs. -/
theorem Evaluates.mono {other : Store} {node : Node} {value : Value}
    (h : Evaluates scope store node value)
    (kept : ∀ declaration ∈ reads scope node, ∀ value,
      store declaration = some value → other declaration = some value) :
    Evaluates scope other node value := by
  have below {inner : Node} {id : NodeId} {kind : Kind Node} (mem : inner ∈ kind.children)
      (kept : ∀ declaration ∈ reads scope (.mk id kind), ∀ value,
        store declaration = some value → other declaration = some value) :
      ∀ declaration ∈ reads scope inner, ∀ value,
        store declaration = some value → other declaration = some value :=
    fun declaration read => kept declaration
      (reads_subset (Node.mem_preorder_of_mem_children mem inner.self_mem_preorder) read)
  have left {left right : Node} {operator : Operator} :
      left ∈ (Kind.binary operator left right).children := List.mem_cons_self
  have right {left right : Node} {operator : Operator} :
      right ∈ (Kind.binary operator left right).children :=
    List.mem_cons_of_mem _ List.mem_cons_self
  induction h with
  | literal => exact .literal
  | identifier resolved known =>
    exact .identifier resolved (kept _ (mem_reads (Node.self_mem_preorder _) resolved) _ known)
  | decided decides _ holds ih => exact .decided decides (ih (below left kept)) holds
  | undecided decides _ holds _ result ihLeft ihRight =>
    exact .undecided decides (ihLeft (below left kept)) holds (ihRight (below right kept)) result
  | applied strict _ _ apply ihLeft ihRight =>
    exact .applied strict (ihLeft (below left kept)) (ihRight (below right kept)) apply

end Evaluates

section Overrun

theorem bind_error {ε α β : Type} {step : Except ε α} {next : α → Except ε β} {error : ε}
    (h : (step >>= next) = .error error) :
    step = .error error ∨ ∃ a, step = .ok a ∧ next a = .error error := by
  cases step with
  | error first =>
    cases h
    exact .inl rfl
  | ok a => exact .inr ⟨a, rfl, h⟩

variable {limits : Limits}

theorem truth_ne_overrun (value : Value) : truth value ≠ .error (Statement.overrun limits) := by
  unfold truth Statement.overrun
  split <;> split <;> simp

theorem apply_ne_overrun (operator : Operator) (left right : Value) :
    operator.apply left right ≠ .error (Statement.overrun limits) := by
  have unfit : Except.error (.invalidOperands operator left.text right.text) ≠
      (.error (Statement.overrun limits) : Except EvalError Value) := by
    unfold Statement.overrun
    split <;> simp
  have numbers (x y : Float) (result : Except EvalError Value)
      (h : operator.onNumbers? x y = some result) :
      result ≠ .error (Statement.overrun limits) := by
    unfold Operator.onNumbers? at h
    unfold Statement.overrun
    cases operator <;> simp [Operator.arithmetic?, Operator.ordering?] at h <;> subst h <;>
      split <;> (try split) <;> simp [Except.map]
  unfold Operator.apply
  split
  · simp
  · simp
  · split
    · rename_i x y _ _
      cases found : operator.onNumbers? x y with
      | none => exact unfit
      | some result => exact numbers x y result found
    · split
      · simp
      · exact unfit
    · exact unfit

/-- The failure of a loop never comes from an expression. -/
theorem evaluate_ne_overrun (scope : Scope) (store : Store) (node : Node) :
    evaluate scope store node ≠ .error (Statement.overrun limits) := by
  induction node using Node.children_induction with
  | step node ih =>
    obtain ⟨id, kind⟩ := node
    have missing : (.error (.missingValue id) : Except EvalError Value) ≠
        .error (Statement.overrun limits) := by
      unfold Statement.overrun
      split <;> simp
    cases kind with
    | literal literal => exact nofun
    | identifier name =>
      simp only [evaluate]
      split
      · exact nofun
      · exact missing
    | binary operator left right =>
      have onLeft := ih left List.mem_cons_self
      have onRight := ih right (List.mem_cons_of_mem _ List.mem_cons_self)
      simp only [evaluate]
      split
      · intro h
        rcases bind_error h with first | ⟨a, -, h⟩
        · exact onLeft first
        rcases bind_error h with holds | ⟨b, -, h⟩
        · exact truth_ne_overrun a holds
        split at h
        · cases h
        rcases bind_error h with second | ⟨c, -, h⟩
        · exact onRight second
        rcases bind_error h with result | ⟨d, -, h⟩
        · exact truth_ne_overrun c result
        · cases h
      · intro h
        rcases bind_error h with first | ⟨a, -, h⟩
        · exact onLeft first
        rcases bind_error h with second | ⟨c, -, h⟩
        · exact onRight second
        · exact apply_ne_overrun operator a c h
    | _ => exact missing

end Overrun

end Strict

namespace Plain

/-- Expressions of literals, operators and identifiers that refer to one of the given
declarations. -/
inductive Expression (scope : Scope) (own : List NodeId) : Node → Prop
  | literal {id : NodeId} {literal : Literal} : Expression scope own (.mk id (.literal literal))
  | identifier {id declaration : NodeId} {name : String}
    (resolved : scope.resolve id = some declaration) (mem : declaration ∈ own) :
    Expression scope own (.mk id (.identifier name))
  | binary {id : NodeId} {operator : Operator} {left right : Node}
    (first : Expression scope own left) (second : Expression scope own right) :
    Expression scope own (.mk id (.binary operator left right))

/-- Statements over such expressions. -/
inductive Statement (scope : Scope) (own : List NodeId) : Node → Prop
  | declaration {id : NodeId} {name : String} {type? : Option Node} {initializer : Node}
    (plain : Expression scope own initializer) :
    Statement scope own (.mk id (.variableDecl name type? (some initializer)))
  | branch {id : NodeId} {condition : Node} {block : List Node}
    (plain : Expression scope own condition)
    (inside : ∀ statement ∈ block, Statement scope own statement) :
    Statement scope own (.mk id (.branch condition block))
  | loop {id : NodeId} {condition : Node} {block : List Node}
    (plain : Expression scope own condition)
    (inside : ∀ statement ∈ block, Statement scope own statement) :
    Statement scope own (.mk id (.loop condition block))
  | returnUnit {id : NodeId} : Statement scope own (.mk id (.returnStatement none))
  | returnValue {id : NodeId} {expression : Node} (plain : Expression scope own expression) :
    Statement scope own (.mk id (.returnStatement (some expression)))
  | assignment {id place declaration : NodeId} {target value : Node}
    (resolved : scope.resolve target.id = some declaration) (mem : declaration ∈ own)
    (plain : Expression scope own value) :
    Statement scope own (.mk id (.expressionStatement (.mk place (.assignment target value))))
  | expression {id : NodeId} {expression : Node} (plain : Expression scope own expression) :
    Statement scope own (.mk id (.expressionStatement expression))

/-- The variables that a statement declares, at any depth of branches and loops. -/
def declared : Node → List NodeId
  | .mk id (.variableDecl ..) => [id]
  | .mk _ (.branch _ block) => block.flatMap declared
  | .mk _ (.loop _ block) => block.flatMap declared
  | _ => []

/-- The parameters of a function and the variables that its statements declare. -/
def ownDeclarations (function : Node) : List NodeId :=
  (Call.parametersOf function).map (fun parameter => parameter.1.id) ++
    (Call.bodyOf function).flatMap declared

/-- A function whose statements are plain, and only about its own parameters and variables. -/
structure Function (scope : Scope) (function : Node) : Prop where
  kind : ∃ name generics parameters returnType body,
    function.kind = .functionDecl name generics parameters returnType body
  parameters : ∀ parameter ∈ Call.parametersOf function, parameter.1.parameterSlot?.isSome
  body : ∀ statement ∈ Call.bodyOf function,
    Statement scope (ownDeclarations function) statement

end Plain

end DeclLang
