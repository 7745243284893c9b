import DeclLang.Proofs.DeferredValues
import DeclLang.Proofs.EarlierReferences

/-!
# Lazy execution follows strict execution

**Input.**  A plain function whose nodes have the recipes that belong to them, and the store and the
context in front of one of its statements.

**Invariant.**  `Layout.Holds`: the context owes every value in the store, and nodes of statements
that were not executed have no value, unless they are variables that were assigned already.
`Layout.Waits`: a variable whose initializer is still deferred is pending, or reads nothing that may
be assigned from here on.

**Results.**  `Layout.simulates_executeBlock`: when the strict execution of statements ends, so does
their execution, and the invariant holds for the new store; when it returns a value, the same value
is returned; and when a loop fails, so does the execution.
-/

namespace DeclLang

namespace Statement

variable (plan : Plan) (limits : Limits) (evaluate : NodeId → Eval Value)

theorem execute_branch (id : NodeId) (condition : Node) (block : List Node)
    (pending : List NodeId) :
    execute plan limits evaluate (.mk id (.branch condition block)) pending = (do
      if ← Eval.condition (← evaluate condition.id) then
        executeBlock plan limits evaluate block pending
      else
        return .next pending) := by
  rw [execute]
  rfl

/-- How statements go on after a loop. -/
def afterLoop (pending : List NodeId) : Option Value → Eval Flow
  | some value => return .returned value
  | none => return .next pending

theorem execute_loop (id : NodeId) (condition : Node) (block : List Node)
    (pending : List NodeId) :
    execute plan limits evaluate (.mk id (.loop condition block)) pending = (do
      let subtree := plan.subtree id
      let pending ← settle plan evaluate (subtree.filterMap plan.target?) pending
      let turns := limits.iterations.getD limits.patience
      repeatLoop limits subtree (do Eval.condition (← evaluate condition.id))
        (executeBlock plan limits evaluate block []) turns >>= afterLoop pending) := by
  rw [execute]
  rfl

theorem execute_expressionStatement (id : NodeId) (expression : Node) (pending : List NodeId) :
    execute plan limits evaluate (.mk id (.expressionStatement expression)) pending =
      executeExpression plan evaluate expression pending := by
  rw [execute]
  rfl

theorem executeBlock_cons (statement : Node) (statements : List Node) (pending : List NodeId) :
    executeBlock plan limits evaluate (statement :: statements) pending = (do
      match ← execute plan limits evaluate statement pending with
      | .next pending => executeBlock plan limits evaluate statements pending
      | .returned value => return .returned value) :=
  executeBlock.eq_2 plan limits evaluate pending statement statements

section Turn

variable {subtree : List NodeId} {condition : Eval Bool} {body : Eval Flow}
  {context turn : Context} {session : Session}

theorem openTurn_ok {b : Bool}
    (h : condition ⟨context.copy.forget subtree, session⟩ = (.ok b, ⟨turn, session⟩)) :
    openTurn subtree condition ⟨context, session⟩ = (.ok (b, turn), ⟨context, session⟩) := by
  have current : Eval.context ⟨context, session⟩ = (.ok context, ⟨context, session⟩) := rfl
  unfold openTurn
  rw [Step.bind_ok current, Eval.within_ok h]

theorem repeatLoop_done
    (h : condition ⟨context.copy.forget subtree, session⟩ = (.ok false, ⟨turn, session⟩))
    (turns : Nat) :
    repeatLoop limits subtree condition body turns ⟨context, session⟩ =
      (.ok none, ⟨context, session⟩) := by
  cases turns with
  | zero =>
    unfold repeatLoop
    rw [Step.bind_ok (openTurn_ok h)]
    rfl
  | succ turns =>
    unfold repeatLoop
    rw [Step.bind_ok (openTurn_ok h)]
    rfl

variable (opened : condition ⟨context.copy.forget subtree, session⟩ =
  (.ok true, ⟨turn, session⟩))

include opened

theorem repeatLoop_overrun :
    repeatLoop limits subtree condition body 0 ⟨context, session⟩ =
      (.error (overrun limits), ⟨context, session⟩) := by
  unfold repeatLoop
  rw [Step.bind_ok (openTurn_ok opened)]
  rfl

theorem repeatLoop_next {pending : List NodeId} {after : Context}
    (ran : body ⟨turn, session⟩ = (.ok (.next pending), ⟨after, session⟩)) (turns : Nat) :
    repeatLoop limits subtree condition body (turns + 1) ⟨context, session⟩ =
      repeatLoop limits subtree condition body turns ⟨context.adopt after, session⟩ := by
  have turned : Eval.within turn body ⟨context, session⟩ =
    (.ok (.next pending, after), ⟨context, session⟩) := Eval.within_ok ran
  rw [repeatLoop, Step.bind_ok (openTurn_ok opened)]
  dsimp only
  rw [if_pos rfl, Step.bind_ok turned]
  rfl

theorem repeatLoop_returned {value : Value}
    (ran : (body ⟨turn, session⟩).1 = .ok (.returned value)) (turns : Nat) :
    (repeatLoop limits subtree condition body (turns + 1) ⟨context, session⟩).1 =
      .ok (some value) := by
  have turned : (Eval.within turn body ⟨context, session⟩).1 =
      .ok (.returned value, (body ⟨turn, session⟩).2.context) := by
    rw [Eval.within_fst, ran]
    rfl
  rw [repeatLoop, Step.bind_ok (openTurn_ok opened)]
  dsimp only
  rw [if_pos rfl, Step.bind_fst_ok turned]
  rfl

theorem repeatLoop_error {error : EvalError} (ran : (body ⟨turn, session⟩).1 = .error error)
    (turns : Nat) :
    (repeatLoop limits subtree condition body (turns + 1) ⟨context, session⟩).1 =
      .error error := by
  have turned : (Eval.within turn body ⟨context, session⟩).1 = .error error := by
    rw [Eval.within_fst, ran]
    rfl
  rw [repeatLoop, Step.bind_ok (openTurn_ok opened)]
  dsimp only
  rw [if_pos rfl, Step.bind_fst_error turned]

end Turn

end Statement

namespace Node

/-- The identities of the nodes that are inside of the loops of a tree. -/
def looped (node : Node) : List NodeId :=
  node.preorder.flatMap fun inner =>
    match inner.kind with
    | .loop .. => inner.descendants.map Node.id
    | _ => []

variable {node : Node}

theorem exists_of_mem_looped {id : NodeId} (h : id ∈ node.looped) :
    ∃ inner ∈ node.preorder, inner.IsBlock ∧ id ∈ inner.descendants.map Node.id := by
  obtain ⟨inner, inside, mem⟩ := List.mem_flatMap.1 h
  split at mem
  · rename_i condition block kind
    exact ⟨inner, inside, ⟨condition, block, .inr kind⟩, mem⟩
  · cases mem

theorem looped_subset (node : Node) : node.looped ⊆ node.identities := by
  intro id mem
  obtain ⟨inner, inside, -, below⟩ := exists_of_mem_looped mem
  obtain ⟨part, deeper, rfl⟩ := List.mem_map.1 below
  exact id_mem_identities (mem_preorder_trans inside (mem_preorder_of_mem_descendants deeper))

theorem looped_child {child : Node} (mem : child ∈ node.children) : child.looped ⊆ node.looped := by
  intro id inLoop
  obtain ⟨inner, inside, below⟩ := List.mem_flatMap.1 inLoop
  exact List.mem_flatMap.2 ⟨inner, mem_preorder_of_mem_children mem inside, below⟩

theorem subset_looped (id : NodeId) (condition : Node) (block : List Node) :
    (Node.mk id (.loop condition block)).descendants.map Node.id ⊆
      (Node.mk id (.loop condition block)).looped :=
  fun _ mem => List.mem_flatMap.2 ⟨_, self_mem_preorder _, mem⟩

end Node

namespace Layout

/-- No statement assigns what is inside of a loop of a later one. -/
def Sheltered (layout : Layout) (block : List Node) : Prop :=
  block.Pairwise fun statement later =>
    ∀ target ∈ statement.identities.filterMap layout.plan.target?, target ∉ later.looped

/-- The nodes of a statement have the recipes, and the plan has the facts, that belong to them. -/
inductive WiredStatement (layout : Layout) : Node → Prop
  | declaration {id : NodeId} {name : String} {type? : Option Node} {initializer : Node}
    (mem : id ∈ layout.own)
    (found : layout.base.thunk? id = some { dependencies := [initializer.id], recipe := .relay })
    (reads : layout.plan.readsOf id = Strict.reads layout.scope initializer)
    (wired : layout.Wired initializer) :
    WiredStatement layout (.mk id (.variableDecl name type? (some initializer)))
  | branch {id : NodeId} {condition : Node} {block : List Node} (wired : layout.Wired condition)
    (sheltered : layout.Sheltered block)
    (inside : ∀ statement ∈ block, WiredStatement layout statement) :
    WiredStatement layout (.mk id (.branch condition block))
  | loop {id : NodeId} {condition : Node} {block : List Node}
    (subtree : layout.plan.subtree id = (condition :: block).flatMap Node.identities)
    (wired : layout.Wired condition) (sheltered : layout.Sheltered block)
    (inside : ∀ statement ∈ block, WiredStatement layout statement) :
    WiredStatement layout (.mk id (.loop condition block))
  | returnUnit {id : NodeId} : WiredStatement layout (.mk id (.returnStatement none))
  | returnValue {id : NodeId} {expression : Node} (wired : layout.Wired expression) :
    WiredStatement layout (.mk id (.returnStatement (some expression)))
  | assignment {id place declaration : NodeId} {target value : Node}
    (resolved : layout.scope.resolve target.id = some declaration)
    (planned : layout.plan.target? place = some declaration) (mem : declaration ∈ layout.own)
    (wired : layout.Wired value) :
    WiredStatement layout (.mk id (.expressionStatement (.mk place (.assignment target value))))
  | expression {id : NodeId} {expression : Node} (wired : layout.Wired expression) :
    WiredStatement layout (.mk id (.expressionStatement expression))

/-- The context owes every value in the store.  What it owes is computed from nodes of the region;
only nodes that were used have values, and variables that were assigned before they were declared. -/
structure Holds (layout : Layout) (store : Store) (region used : List NodeId) (context : Context) :
    Prop where
  laid : layout.Laid context
  idle : ∀ id, id ∉ context.inProgress
  nested : region ⊆ used
  inside : used ⊆ layout.nodes
  known : ∀ declaration value, store declaration = some value → declaration ∈ layout.own
  owed : ∀ declaration value, store declaration = some value →
    layout.Owed store region context declaration
  fresh : ∀ id ∈ layout.nodes, id ∉ used → store id = none → (layout.base.thunk? id).isSome →
    context.value? id = none
  assigned : ∀ declaration ∈ context.rebound, declaration ∈ layout.own ∧
    (declaration ∈ used ∨ (store declaration).isSome) ∧ (context.value? declaration).isSome

/-- Pending variables are in the store; other variables without a value read no declaration that is
affected by assignments. -/
structure Waits (layout : Layout) (store : Store) (pending affected : List NodeId)
    (context : Context) : Prop where
  stored : ∀ declaration ∈ pending, ∃ value, store declaration = some value
  waiting : ∀ declaration value, store declaration = some value →
    context.value? declaration = none →
      declaration ∈ pending ∨ ∀ read ∈ layout.plan.readsOf declaration, read ∉ affected

section

variable {layout : Layout} {store : Store} {region used pending affected : List NodeId}
  {context : Context} {session : Session}

theorem Holds.recalls (holds : layout.Holds store region used context)
    {larger more : List NodeId} {after : Context} (recalls : Context.Recalls larger context after)
    (idle : ∀ id, id ∉ after.inProgress) (region_subset : region ⊆ larger)
    (used_subset : used ⊆ more) (nested : larger ⊆ more) (inside : more ⊆ layout.nodes) :
    layout.Holds store larger more after where
  laid :=
    { thunks := recalls.thunks.trans holds.laid.thunks
      constants := fun id value apart constant known =>
        recalls.kept id value (holds.laid.constants id value apart constant known) }
  idle := idle
  nested := nested
  inside := inside
  known := holds.known
  owed declaration value same :=
    (holds.owed declaration value same).recalls holds.laid region_subset recalls
  fresh id mem unused unset recipe := by
    rw [recalls.outside id fun inner => unused (nested inner)]
    exact holds.fresh id mem (fun before => unused (used_subset before)) unset recipe
  assigned declaration mem := by
    rw [recalls.rebound] at mem
    obtain ⟨own, before, known⟩ := holds.assigned declaration mem
    obtain ⟨value, known⟩ := Option.isSome_iff_exists.1 known
    refine ⟨own, before.imp_left fun mem => used_subset mem, ?_⟩
    rw [recalls.kept declaration value known]
    rfl

theorem Holds.mono (holds : layout.Holds store region used context) {larger more : List NodeId}
    (region_subset : region ⊆ larger) (used_subset : used ⊆ more) (nested : larger ⊆ more)
    (inside : more ⊆ layout.nodes) : layout.Holds store larger more context :=
  holds.recalls (Context.Recalls.refl larger context) holds.idle region_subset used_subset nested
    inside

/-- Only declarations are in the store. -/
theorem Holds.unset (holds : layout.Holds store region used context) {id : NodeId}
    (other : id ∉ layout.own) : store id = none := by
  cases stored : store id with
  | none => rfl
  | some value => exact absurd (holds.known id value stored) other

theorem Waits.keeps (waits : layout.Waits store pending affected context) {after : Context}
    (keeps : context.Keeps after) : layout.Waits store pending affected after where
  stored := waits.stored
  waiting declaration value same unknown :=
    waits.waiting declaration value same (keeps.unknown unknown)

/-- An expression that was not executed yet has no values but those of its literals. -/
theorem Holds.agrees (holds : layout.Holds store region used context) {node : Node}
    (wired : layout.Wired node) (within : node.identities ⊆ layout.nodes)
    (unused : ∀ id ∈ node.identities, id ∉ used) (other : Store) :
    layout.Agrees other context node := by
  intro part inside value expected kept evaluated
  have mem := Node.id_mem_identities inside
  have fresh {thunk : Thunk} (found : layout.base.thunk? part.id = some thunk) :
      value = expected := by
    rw [holds.fresh part.id (within mem) (unused part.id mem)
      (holds.unset (wired.inner inside).apart) (by rw [found]; rfl)] at kept
    cases kept
  cases wired.inner inside with
  | literal apart constant known =>
    cases evaluated
    exact Option.some.inj (kept.symm.trans (holds.laid.constants _ _ apart constant known))
  | identifier apart resolved mem found => exact fresh found
  | binary apart found first second => exact fresh found

variable (evaluator : Evaluator) {budget : Nat} (enough : layout.nodes.length ≤ budget)

include enough

/-- A declaration in the store is evaluated to its value. -/
theorem Holds.read (holds : layout.Holds store region used context) {declaration : NodeId}
    {value : Value} (same : store declaration = some value) (session : Session) :
    ∃ after, evaluator.evaluateWithin budget declaration ⟨context, session⟩ =
        (.ok value, ⟨after, session⟩) ∧
      layout.Holds store region used after ∧ context.Keeps after ∧
      after.value? declaration = some value := by
  obtain ⟨level, foreseen⟩ := (holds.owed declaration value same).foreseen holds.laid same
  obtain ⟨after, evaluated, recalls, idle, kept⟩ := evaluator.evaluateWithin_of_region foreseen
    (List.Subset.trans holds.nested holds.inside) holds.idle enough session
  exact ⟨after, evaluated, holds.recalls recalls idle (List.Subset.refl _) (List.Subset.refl _)
    holds.nested holds.inside, recalls.keeps, kept⟩

/-- An expression that was not executed yet is evaluated to its strict value. -/
theorem Holds.evaluate (holds : layout.Holds store region used context) {node : Node}
    (wired : layout.Wired node) (within : node.identities ⊆ layout.nodes)
    (unused : ∀ id ∈ node.identities, id ∉ used) {value : Value}
    (expected : Strict.evaluate layout.scope store node = .ok value) (session : Session) :
    ∃ after, evaluator.evaluateWithin budget node.id ⟨context, session⟩ =
        (.ok value, ⟨after, session⟩) ∧
      layout.Holds store (region ++ node.identities) (used ++ node.identities) after ∧
      context.Keeps after := by
  have left : region ⊆ region ++ node.identities := List.subset_append_left _ _
  have nested : region ++ node.identities ⊆ used ++ node.identities :=
    List.append_subset.2 ⟨List.Subset.trans holds.nested (List.subset_append_left _ _),
      List.subset_append_right _ _⟩
  have inside : used ++ node.identities ⊆ layout.nodes :=
    List.append_subset.2 ⟨holds.inside, within⟩
  have supplied (declaration : NodeId) (value : Value) (same : store declaration = some value) :
      ∃ level, context.foresee (region ++ node.identities) level declaration = some value := by
    obtain ⟨level, found⟩ := (holds.owed declaration value same).foreseen holds.laid same
    exact ⟨level, Context.foresee_mono left (Nat.le_refl level) found⟩
  obtain ⟨level, foreseen⟩ := foreseen_of_evaluates holds.laid supplied
    (Strict.evaluates_of_evaluate expected) wired (List.subset_append_right _ _)
    (holds.agrees wired within unused store)
  obtain ⟨after, evaluated, recalls, idle, -⟩ := evaluator.evaluateWithin_of_region foreseen
    (List.Subset.trans nested inside) holds.idle enough session
  exact ⟨after, evaluated, holds.recalls recalls idle left (List.subset_append_left _ _) nested
    inside, recalls.keeps⟩

/-- Settling evaluates the pending variables that read affected declarations. -/
theorem Holds.settle (holds : layout.Holds store region used context) {pending : List NodeId}
    (stored : ∀ declaration ∈ pending, ∃ value, store declaration = some value)
    (affected : List NodeId) (session : Session) :
    ∃ rest after, Statement.settle layout.plan (evaluator.evaluateWithin budget) affected pending
        ⟨context, session⟩ = (.ok rest, ⟨after, session⟩) ∧
      layout.Holds store region used after ∧ context.Keeps after ∧ rest ⊆ pending ∧
      ∀ declaration ∈ pending, (after.value? declaration).isSome ∨
        declaration ∈ rest ∧ ∀ read ∈ layout.plan.readsOf declaration, read ∉ affected := by
  induction pending generalizing affected context with
  | nil => exact ⟨[], context, rfl, holds, .refl context, List.Subset.refl _, nofun⟩
  | cons first pending ih =>
    have storedRest (declaration : NodeId) (mem : declaration ∈ pending) :=
      stored declaration (List.mem_cons_of_mem _ mem)
    unfold Statement.settle
    by_cases reads : (layout.plan.readsOf first).any affected.contains
    · obtain ⟨value, same⟩ := stored first List.mem_cons_self
      obtain ⟨middle, evaluated, holds, keeps, known⟩ := holds.read evaluator enough same session
      obtain ⟨rest, after, settled, holds, keepsRest, subset, outcome⟩ :=
        ih holds storedRest (first :: affected)
      refine ⟨rest, after, ?_, holds, keeps.trans keepsRest,
        List.Subset.trans subset (List.subset_cons_self _ _), fun declaration mem => ?_⟩
      · rw [if_pos reads, Step.bind_ok (Eval.attempt_eq evaluated)]
        exact settled
      · rcases List.mem_cons.1 mem with rfl | mem
        · rw [keepsRest.kept declaration value known]
          exact .inl rfl
        · rcases outcome declaration mem with done | ⟨kept, avoids⟩
          · exact .inl done
          · exact .inr ⟨kept, fun read mem inside =>
              avoids read mem (List.mem_cons_of_mem _ inside)⟩
    · obtain ⟨rest, after, settled, holds, keeps, subset, outcome⟩ := ih holds storedRest affected
      refine ⟨first :: rest, after, ?_, holds, keeps, List.cons_subset_cons _ subset,
        fun declaration mem => ?_⟩
      · rw [if_neg reads, Step.bind_ok settled]
        rfl
      · rcases List.mem_cons.1 mem with rfl | mem
        · refine .inr ⟨List.mem_cons_self, fun read mem inside => reads ?_⟩
          exact List.any_eq_true.2 ⟨read, mem, List.contains_iff_mem.2 inside⟩
        · rcases outcome declaration mem with done | ⟨kept, avoids⟩
          · exact .inl done
          · exact .inr ⟨List.mem_cons_of_mem _ kept, avoids⟩

omit enough in
/-- After settling, what still waits reads nothing that was affected. -/
theorem Waits.settled (waits : layout.Waits store pending affected context) {after : Context}
    (keeps : context.Keeps after) {rest targets : List NodeId} (subset : rest ⊆ pending)
    (targeted : targets ⊆ affected)
    (outcome : ∀ declaration ∈ pending, (after.value? declaration).isSome ∨
      declaration ∈ rest ∧ ∀ read ∈ layout.plan.readsOf declaration, read ∉ targets) :
    layout.Waits store rest affected after ∧
      ∀ declaration value, store declaration = some value → after.value? declaration = none →
        ∀ read ∈ layout.plan.readsOf declaration, read ∉ targets := by
  have still {declaration : NodeId} {value : Value} (same : store declaration = some value)
      (unknown : after.value? declaration = none) :
      (declaration ∈ rest ∧ ∀ read ∈ layout.plan.readsOf declaration, read ∉ targets) ∨
        ∀ read ∈ layout.plan.readsOf declaration, read ∉ affected := by
    rcases waits.waiting declaration value same (keeps.unknown unknown) with mem | avoids
    · rcases outcome declaration mem with done | kept
      · rw [unknown] at done
        cases done
      · exact .inl kept
    · exact .inr avoids
  constructor
  · exact
      { stored := fun declaration mem => waits.stored declaration (subset mem)
        waiting := fun declaration value same unknown => (still same unknown).imp_left And.left }
  · intro declaration value same unknown read mem inside
    rcases still same unknown with ⟨-, avoids⟩ | avoids
    · exact avoids read mem inside
    · exact avoids read mem (targeted inside)

omit enough in
/-- An assignment changes the store and the context alike. -/
theorem Holds.assign (holds : layout.Holds store region used context) {target : NodeId}
    (targeted : target ∈ layout.own)
    (unread : ∀ declaration value, store declaration = some value →
      context.value? declaration = none → target ∉ layout.plan.readsOf declaration)
    (value : Value) :
    layout.Holds (store.set target value) region used (context.rebind target value) := by
  have foreign {id : NodeId} (apart : id ∉ layout.own) :
      (context.rebind target value).value? id = context.value? id := by
    have own : id ≠ target := by
      rintro rfl
      exact apart targeted
    rw [Context.value?_rebind, if_neg own]
  exact
    { laid :=
        { thunks := holds.laid.thunks
          constants := fun id value' apart constant same => by
            rw [foreign apart]
            exact holds.laid.constants id value' apart constant same }
      idle := holds.idle
      nested := holds.nested
      inside := holds.inside
      known := fun declaration value' same => by
        by_cases own : declaration = target
        · exact own ▸ targeted
        · rw [store.set_of_ne value own] at same
          exact holds.known declaration value' same
      owed := fun declaration value' same => by
        by_cases assigned : declaration = target
        · subst assigned
          refine .kept ?_ same
          rw [Context.value?_rebind, if_pos rfl, ← same, store.set_self]
        have stored := (store.set_of_ne value assigned).symm.trans same
        refine (holds.owed declaration value' stored).carry ?_ ?_ (fun _ _ => foreign) same
        · intro other former latter stored same
          rw [Context.value?_rebind]
          by_cases own : other = target
          · subst own
            rw [store.set_self] at same
            rw [if_pos rfl]
            exact .inl same
          · rw [store.set_of_ne value own, stored] at same
            rw [if_neg own]
            exact .inr ⟨rfl, Option.some.inj same⟩
        · intro other former stored unknown read mem value' same
          have own : read ≠ target := by
            rintro rfl
            exact unread other former stored unknown mem
          rw [store.set_of_ne value own, same]
      fresh := fun id mem unused unset recipe => by
        have own : id ≠ target := by
          rintro rfl
          rw [store.set_self] at unset
          cases unset
        rw [store.set_of_ne value own] at unset
        rw [Context.value?_rebind, if_neg own]
        exact holds.fresh id mem unused unset recipe
      assigned := fun declaration mem => by
        rw [Context.value?_rebind]
        by_cases own : declaration = target
        · subst own
          rw [store.set_self, if_pos rfl]
          exact ⟨targeted, .inr rfl, rfl⟩
        · rw [store.set_of_ne value own, if_neg own]
          exact holds.assigned declaration
            (((Context.mem_rebound_rebind target value declaration).1 mem).resolve_left own) }

omit enough in
theorem Waits.assign (waits : layout.Waits store pending affected context) (target : NodeId)
    (value : Value) :
    layout.Waits (store.set target value) pending affected (context.rebind target value) where
  stored declaration mem := by
    obtain ⟨former, stored⟩ := waits.stored declaration mem
    by_cases own : declaration = target
    · subst own
      exact ⟨value, store.set_self _ value⟩
    · exact ⟨former, by rw [store.set_of_ne value own, stored]⟩
  waiting declaration value' same unknown := by
    rw [Context.value?_rebind] at unknown
    split at unknown
    · cases unknown
    · rename_i own
      rw [store.set_of_ne value own] at same
      exact waits.waiting declaration value' same unknown

end

/-- What execution changes: declarations inside the nodes, and declarations that are assigned. -/
structure Changes (ids affected : List NodeId) (store next : Store) (context after : Context) :
    Prop where
  changed : ∀ declaration, declaration ∉ ids → next declaration = store declaration ∨
    declaration ∈ after.rebound ∧ declaration ∈ affected ∧ (next declaration).isSome
  rebound : ∀ declaration ∈ context.rebound, declaration ∈ after.rebound

theorem Changes.keeps {ids affected : List NodeId} {store : Store} {context after : Context}
    (keeps : context.Keeps after) : Changes ids affected store store context after where
  changed _ _ := .inl rfl
  rebound declaration mem := by rwa [keeps.rebound]

theorem Changes.mono {ids more targets affected : List NodeId} {store next : Store}
    {context after : Context} (h : Changes ids targets store next context after)
    (subset : ids ⊆ more) (targeted : targets ⊆ affected) :
    Changes more affected store next context after where
  changed declaration absent :=
    (h.changed declaration fun mem => absent (subset mem)).imp_right fun ⟨mem, target, known⟩ =>
      ⟨mem, targeted target, known⟩
  rebound := h.rebound

theorem Changes.trans {ids affected : List NodeId} {store middle next : Store}
    {context between after : Context} (h : Changes ids affected store middle context between)
    (later : Changes ids affected middle next between after) :
    Changes ids affected store next context after where
  changed declaration absent := by
    rcases later.changed declaration absent with same | assigned
    · rcases h.changed declaration absent with before | ⟨mem, target, known⟩
      · exact .inl (same.trans before)
      · exact .inr ⟨later.rebound declaration mem, target, by rwa [same]⟩
    · exact .inr assigned
  rebound declaration mem := later.rebound declaration (h.rebound declaration mem)

/-- What had no value and was neither declared nor assigned has none. -/
theorem Changes.unset {ids targets looped : List NodeId} {store next : Store}
    {context after : Context} (h : Changes ids targets store next context after)
    (unset : ∀ id ∈ looped, store id = none) (undeclared : ∀ id ∈ looped, id ∉ ids)
    (unassigned : ∀ id ∈ looped, id ∉ targets) : ∀ id ∈ looped, next id = none := by
  intro id mem
  rcases h.changed id (undeclared id mem) with same | ⟨-, target, -⟩
  · rw [same, unset id mem]
  · exact absurd target (unassigned id mem)

/-- Where the execution of some nodes starts, some of which are inside of loops. -/
structure Starts (layout : Layout) (ids looped : List NodeId) (store : Store)
    (region pending affected : List NodeId) (context : Context) : Prop where
  holds : layout.Holds store region region context
  waits : layout.Waits store pending affected context
  inside : ids ⊆ layout.nodes
  distinct : ids.Nodup
  unused : ∀ id ∈ ids, id ∉ region
  targets : ids.filterMap layout.plan.target? ⊆ affected
  unset : ∀ id ∈ looped, store id = none

/-- Where it ends. -/
structure Ends (layout : Layout) (ids : List NodeId) (store : Store)
    (region affected : List NodeId) (context : Context) (next : Store) (pending : List NodeId)
    (after : Context) : Prop where
  holds : layout.Holds next (region ++ ids) (region ++ ids) after
  waits : layout.Waits next pending affected after
  changes : Changes ids (ids.filterMap layout.plan.target?) store next context after

/-- Once some of the nodes are executed, the execution of others may come to the end. -/
theorem Ends.widen {layout : Layout} {ids inner : List NodeId} {store middle next : Store}
    {region larger pending affected : List NodeId} {context between after : Context}
    (before : Changes ids (ids.filterMap layout.plan.target?) store middle context between)
    (h : layout.Ends inner middle larger affected between next pending after)
    (inner_subset : inner ⊆ ids) (subset : larger ++ inner ⊆ region ++ ids)
    (inside : region ++ ids ⊆ layout.nodes) :
    layout.Ends ids store region affected context next pending after where
  holds := h.holds.mono subset subset (List.Subset.refl _) inside
  waits := h.waits
  changes := before.trans (h.changes.mono inner_subset (List.filterMap_subset _ inner_subset))

/-- The execution of some of the nodes starts where that of all of them does. -/
theorem Starts.part {layout : Layout} {ids inner looped more : List NodeId} {store : Store}
    {region pending affected : List NodeId} {context : Context}
    (starts : layout.Starts ids looped store region pending affected context)
    (sublist : inner.Sublist ids) (subset : more ⊆ looped) :
    layout.Starts inner more store region pending affected context where
  holds := starts.holds
  waits := starts.waits
  inside := List.Subset.trans sublist.subset starts.inside
  distinct := starts.distinct.sublist sublist
  unused id mem := starts.unused id (sublist.subset mem)
  targets := List.Subset.trans (List.filterMap_subset _ sublist.subset) starts.targets
  unset id mem := starts.unset id (subset mem)

/-- Where the execution of the first nodes ends, that of the others starts. -/
theorem Ends.starts {layout : Layout} {first rest looped more : List NodeId} {store next : Store}
    {region pending affected between : List NodeId} {context after : Context}
    (starts : layout.Starts (first ++ rest) looped store region pending affected context)
    (ends : layout.Ends first store region affected context next between after)
    (unset : ∀ id ∈ more, next id = none) :
    layout.Starts rest more next (region ++ first) between affected after := by
  have disjoint := List.nodup_append'.1 starts.distinct
  have targets := starts.targets
  rw [List.filterMap_append, List.append_subset] at targets
  exact
    { holds := ends.holds
      waits := ends.waits
      inside := (List.append_subset.1 starts.inside).2
      distinct := disjoint.2.1
      unused := fun id mem inside => by
        rcases List.mem_append.1 inside with before | here
        · exact starts.unused id (List.mem_append_right _ mem) before
        · exact disjoint.2.2 here mem
      targets := targets.2
      unset }

section Turn

variable {layout : Layout} {store next : Store} {region subtree targets : List NodeId}
  {context started turn : Context}

/-- A turn of a loop starts in a context where nothing of the loop was executed. -/
theorem Holds.openTurn (holds : layout.Holds store region (region ++ subtree) context)
    (apart : ∀ id ∈ subtree, id ∉ region) (unset : ∀ id ∈ subtree, store id = none) :
    layout.Holds store region region (context.copy.forget subtree) where
  laid :=
    { thunks := holds.laid.thunks
      constants := fun id value own constant known => by
        rw [Context.value?_forget, if_neg]
        · exact holds.laid.constants id value own constant known
        · rintro ⟨-, recipe⟩
          rw [show context.copy.thunk? id = none from (holds.laid.thunk? id).trans constant]
            at recipe
          cases recipe }
  idle _ := Std.TreeSet.not_mem_emptyc
  nested := List.Subset.refl _
  inside := List.Subset.trans holds.nested holds.inside
  known := holds.known
  owed declaration value same := by
    have still {id : NodeId} (other : id ∉ subtree) :
        (context.copy.forget subtree).value? id = context.value? id := by
      rw [Context.value?_forget, if_neg fun both => other both.1]
      rfl
    refine (holds.owed declaration value same).carry (fun other before value known again => ?_)
      (fun _ _ _ _ _ _ _ known => known)
      (fun id mem _ => still fun inside => apart id inside mem) same
    refine .inr ⟨still fun inside => ?_, Option.some.inj (known.symm.trans again)⟩
    rw [unset other inside] at known
    cases known
  fresh id mem unused unset recipe := by
    rw [Context.value?_forget]
    split
    · rfl
    · rename_i kept
      refine holds.fresh id mem (fun used => ?_) unset recipe
      rcases List.mem_append.1 used with before | here
      · exact unused before
      · refine kept ⟨here, ?_⟩
        rw [show context.copy.thunk? id = layout.base.thunk? id from holds.laid.thunk? id]
        exact recipe
  assigned _ mem := absurd mem Std.TreeSet.not_mem_emptyc

/-- An assigned declaration of the store has its value. -/
theorem Holds.value_of_assigned {used : List NodeId}
    (holds : layout.Holds store region used context) {declaration : NodeId} {value : Value}
    (mem : declaration ∈ context.rebound) (same : store declaration = some value) :
    context.value? declaration = some value := by
  cases holds.owed declaration value same with
  | kept known again => exact known.trans (again.symm.trans same)
  | deferred unknown =>
    have known := (holds.assigned declaration mem).2.2
    rw [unknown] at known
    cases known

/-- What is not assigned in a turn is as before, and what is assigned is taken over. -/
theorem Holds.value?_adopt (after : layout.Holds next (region ++ subtree) (region ++ subtree) turn)
    (declaration : NodeId) :
    (context.adopt turn).value? declaration =
      if declaration ∈ turn.rebound then turn.value? declaration
      else context.value? declaration := by
  rw [Context.value?_adopt]
  by_cases mem : declaration ∈ turn.rebound
  · rw [if_pos mem, if_pos ⟨mem, (after.assigned declaration mem).2.2⟩]
  · rw [if_neg mem, if_neg fun both => mem both.1]

theorem outside_of_without {declaration : NodeId} {value : Value}
    (same : next.without subtree declaration = some value) :
    declaration ∉ subtree ∧ next declaration = some value := by
  by_cases inside : declaration ∈ subtree
  · rw [next.without_of_mem inside] at same
    cases same
  · rw [next.without_of_not_mem inside] at same
    exact ⟨inside, same⟩

variable (context) in
/-- After a turn, what is in the store was assigned in the turn or is as it was before. -/
theorem Holds.adopted (after : layout.Holds next (region ++ subtree) (region ++ subtree) turn)
    (changes : Changes subtree targets store next started turn) {declaration : NodeId}
    {value : Value} (same : next.without subtree declaration = some value) :
    (context.adopt turn).value? declaration = some value ∨
      (context.adopt turn).value? declaration = context.value? declaration ∧
        store declaration = some value := by
  obtain ⟨absent, known⟩ := outside_of_without same
  rw [after.value?_adopt]
  by_cases mem : declaration ∈ turn.rebound
  · rw [if_pos mem]
    exact .inl (after.value_of_assigned mem known)
  · rw [if_neg mem]
    rcases changes.changed declaration absent with still | ⟨assigned, -⟩
    · exact .inr ⟨rfl, still.symm.trans known⟩
    · exact absurd assigned mem

/-- Between turns the context takes the assignments over, and the store drops what was declared
inside the loop. -/
theorem Holds.closeTurn (holds : layout.Holds store region (region ++ subtree) context)
    (unset : ∀ id ∈ subtree, store id = none)
    (unread : ∀ declaration value, store declaration = some value →
      context.value? declaration = none →
        ∀ read ∈ layout.plan.readsOf declaration, read ∉ targets)
    (after : layout.Holds next (region ++ subtree) (region ++ subtree) turn)
    (changes : Changes subtree targets store next started turn) :
    layout.Holds (next.without subtree) region (region ++ subtree) (context.adopt turn) := by
  have foreign {id : NodeId} (own : id ∉ layout.own) :
      (context.adopt turn).value? id = context.value? id := by
    rw [after.value?_adopt, if_neg fun mem => own (after.assigned id mem).1]
  -- What has a value outside of the loop keeps one.
  have still {id : NodeId} (stored : (store id).isSome) :
      id ∈ region ++ subtree ∨ (next.without subtree id).isSome := by
    by_cases inside : id ∈ subtree
    · exact .inl (List.mem_append_right _ inside)
    · rw [next.without_of_not_mem inside]
      rcases changes.changed id inside with same | ⟨-, -, known⟩
      · exact .inr (same ▸ stored)
      · exact .inr known
  exact
    { laid :=
        { thunks := (Context.adopt_rest turn).1.trans holds.laid.thunks
          constants := fun id value own constant known => by
            rw [foreign own]
            exact holds.laid.constants id value own constant known }
      idle := fun id => by
        rw [(Context.adopt_rest turn).2]
        exact holds.idle id
      nested := holds.nested
      inside := holds.inside
      known := fun declaration value same =>
        after.known declaration value (outside_of_without same).2
      owed := fun declaration value same => by
        rcases after.adopted context changes same with now | ⟨-, before⟩
        · exact .kept now same
        refine (holds.owed declaration value before).carry ?_ ?_ (fun _ _ own => foreign own) same
        · intro other former latter known same
          exact (after.adopted context changes same).imp_right fun ⟨still, again⟩ =>
            ⟨still, Option.some.inj (known.symm.trans again)⟩
        · intro other former known unknown read mem value' same
          have absent : read ∉ subtree := fun inside => by
            rw [unset read inside] at same
            cases same
          rw [next.without_of_not_mem absent]
          rcases changes.changed read absent with still | ⟨-, target, -⟩
          · exact still.trans same
          · exact absurd target (unread other former known unknown read mem)
      fresh := fun id mem unused none recipe => by
        have absent : id ∉ subtree := fun inside => unused (List.mem_append_right _ inside)
        have nothing : ¬(id ∈ region ++ subtree ∨ (next.without subtree id).isSome) := by
          rw [none]
          exact fun either => either.elim unused nofun
        rw [after.value?_adopt, if_neg fun mem => ?_]
        · refine holds.fresh id mem unused ?_ recipe
          exact Option.not_isSome_iff_eq_none.1 fun stored => nothing (still stored)
        · have both := (after.assigned id mem).2.1
          rw [← next.without_of_not_mem absent] at both
          exact nothing both
      assigned := fun declaration mem => by
        rw [after.value?_adopt]
        have taken (now : declaration ∈ turn.rebound) :
            declaration ∈ region ++ subtree ∨ (next.without subtree declaration).isSome := by
          by_cases inside : declaration ∈ subtree
          · exact .inl (List.mem_append_right _ inside)
          · rw [next.without_of_not_mem inside]
            exact (after.assigned declaration now).2.1
        by_cases now : declaration ∈ turn.rebound
        · rw [if_pos now]
          exact ⟨(after.assigned declaration now).1, taken now, (after.assigned declaration now).2.2⟩
        · rw [if_neg now]
          have before := ((Context.mem_rebound_adopt turn declaration).1 mem).resolve_right
            fun both => now both.1
          obtain ⟨own, used, known⟩ := holds.assigned declaration before
          exact ⟨own, used.elim .inl still, known⟩ }

theorem Changes.closeTurn (after : layout.Holds next (region ++ subtree) (region ++ subtree) turn)
    (changes : Changes subtree targets store next started turn) :
    Changes subtree targets store (next.without subtree) context (context.adopt turn) where
  changed declaration absent := by
    rw [next.without_of_not_mem absent]
    rcases changes.changed declaration absent with same | ⟨mem, rest⟩
    · exact .inl same
    · exact .inr ⟨(Context.mem_rebound_adopt turn declaration).2
        (.inr ⟨mem, (after.assigned declaration mem).2.2⟩), rest⟩
  rebound declaration mem := (Context.mem_rebound_adopt turn declaration).2 (.inl mem)

theorem Waits.closeTurn {pending affected : List NodeId}
    (waits : layout.Waits store pending affected context)
    (unset : ∀ id ∈ subtree, store id = none)
    (after : layout.Holds next (region ++ subtree) (region ++ subtree) turn)
    (changes : Changes subtree targets store next started turn) :
    layout.Waits (next.without subtree) pending affected (context.adopt turn) where
  stored declaration mem := by
    obtain ⟨value, same⟩ := waits.stored declaration mem
    have absent : declaration ∉ subtree := fun inside => by
      rw [unset declaration inside] at same
      cases same
    rw [next.without_of_not_mem absent]
    rcases changes.changed declaration absent with still | ⟨-, -, known⟩
    · exact ⟨value, still.trans same⟩
    · exact Option.isSome_iff_exists.1 known
  waiting declaration value same unknown := by
    rcases after.adopted context changes same with now | ⟨still, before⟩
    · rw [unknown] at now
      cases now
    · exact waits.waiting declaration value before (still.symm.trans unknown)

end Turn

/-- A run of statements follows its strict execution: it ends where that ends, in the same session,
returns what that returns, and fails when a loop there fails. -/
def Follows (limits : Limits) (session : Session) (ends : Store → List NodeId → Context → Prop)
    (strict : Except EvalError Strict.Flow) (run : Except EvalError Flow × Machine) : Prop :=
  match strict with
  | .ok (.next store) =>
    ∃ pending after, run = (.ok (.next pending), ⟨after, session⟩) ∧ ends store pending after
  | .ok (.returned value) => run.1 = .ok (.returned value)
  | .error error => error = Statement.overrun limits → run.1 = .error error

/-- Wherever it starts, the execution of some nodes follows their strict execution. -/
def Simulates (layout : Layout) (limits : Limits) (ids looped : List NodeId)
    (strict : Store → Except EvalError Strict.Flow) (run : List NodeId → Eval Flow) : Prop :=
  ∀ store region pending affected context session,
    layout.Starts ids looped store region pending affected context →
      Follows limits session (layout.Ends ids store region affected context) (strict store)
        (run pending ⟨context, session⟩)

/-- Wherever it starts, the execution of the statement follows its strict execution. -/
abbrev SimulatesStatement (layout : Layout) (limits : Limits) (evaluator : Evaluator) (budget : Nat)
    (statement : Node) : Prop :=
  layout.Simulates limits statement.identities statement.looped
    (Strict.execute .kept layout.scope limits statement)
    (Statement.execute layout.plan limits (evaluator.evaluateWithin budget) statement)

/-- Wherever it starts, the execution of the statements follows their strict execution. -/
abbrev SimulatesBlock (layout : Layout) (limits : Limits) (evaluator : Evaluator) (budget : Nat)
    (statements : List Node) : Prop :=
  layout.Simulates limits (statements.flatMap Node.identities) (statements.flatMap Node.looped)
    (Strict.executeBlock .kept layout.scope limits statements)
    (Statement.executeBlock layout.plan limits (evaluator.evaluateWithin budget) statements)

section

variable {layout : Layout} {limits : Limits} {store : Store} {session : Session}
  {ends : Store → List NodeId → Context → Prop} {run : Except EvalError Flow × Machine}

theorem Follows.mono {strict : Except EvalError Strict.Flow}
    {more : Store → List NodeId → Context → Prop} (h : Follows limits session ends strict run)
    (imp : ∀ store pending after, ends store pending after → more store pending after) :
    Follows limits session more strict run := by
  match strict with
  | .ok (.next store) =>
    obtain ⟨pending, after, ran, ended⟩ := h
    exact ⟨pending, after, ran, imp store pending after ended⟩
  | .ok (.returned value) => exact h
  | .error error => exact h

theorem follows_evaluate {node : Node} {next : Value → Except EvalError Strict.Flow}
    (h : ∀ value, Strict.evaluate layout.scope store node = .ok value →
      Follows limits session ends (next value) run) :
    Follows limits session ends (Strict.evaluate layout.scope store node >>= next) run := by
  cases expected : Strict.evaluate layout.scope store node with
  | ok value => exact h value expected
  | error error =>
    intro overrun
    exact absurd (overrun ▸ expected) (Strict.evaluate_ne_overrun layout.scope store node)

theorem follows_truth {value : Value} {next : Bool → Except EvalError Strict.Flow}
    (h : ∀ b, value.boolean? = some b → Follows limits session ends (next b) run) :
    Follows limits session ends (Strict.truth value >>= next) run := by
  cases expected : Strict.truth value with
  | ok b => exact h b (Strict.truth_ok expected)
  | error error =>
    intro overrun
    exact absurd (overrun ▸ expected) (Strict.truth_ne_overrun value)

theorem follows_condition {node : Node} {next : Bool → Except EvalError Strict.Flow}
    (h : ∀ value b, Strict.evaluate layout.scope store node = .ok value →
      value.boolean? = some b → Follows limits session ends (next b) run) :
    Follows limits session ends
      ((do Strict.truth (← Strict.evaluate layout.scope store node)) >>= next) run := by
  rw [bind_assoc]
  exact follows_evaluate fun value expected => follows_truth fun b holds =>
    h value b expected holds

end

section Simulates

variable {layout : Layout} {limits : Limits} {evaluator : Evaluator} {budget : Nat}

theorem simulates_nil : layout.SimulatesBlock limits evaluator budget [] := by
  intro store region pending affected context session starts
  refine ⟨pending, context, by rw [Statement.executeBlock]; rfl, ?_, starts.waits, .keeps (.refl _)⟩
  rw [List.flatMap_nil, List.append_nil]
  exact starts.holds

theorem simulates_cons {statement : Node} {statements : List Node}
    (first : layout.SimulatesStatement limits evaluator budget statement)
    (rest : layout.SimulatesBlock limits evaluator budget statements)
    (sheltered : ∀ later ∈ statements,
      ∀ target ∈ statement.identities.filterMap layout.plan.target?, target ∉ later.looped) :
    layout.SimulatesBlock limits evaluator budget (statement :: statements) := by
  intro store region pending affected context session starts
  rw [List.flatMap_cons] at starts ⊢
  rw [List.flatMap_cons] at starts
  have disjoint := List.nodup_append'.1 starts.distinct
  have followed := first store region pending affected context session
    (starts.part (List.sublist_append_left _ _) (List.subset_append_left _ _))
  rw [Statement.executeBlock_cons, Strict.executeBlock]
  cases strict : Strict.execute .kept layout.scope limits statement store with
  | error error =>
    rw [strict] at followed
    exact fun overrun => Step.bind_fst_error (followed overrun)
  | ok flow =>
    rw [strict] at followed
    cases flow with
    | returned value =>
      change (_ : Except EvalError Flow × Machine).1 = _ at followed ⊢
      rw [Step.bind_fst_ok followed]
      rfl
    | next middle =>
      obtain ⟨between, after, ran, ends⟩ := followed
      -- What is inside of later loops is neither declared nor assigned by the statement.
      have unset : ∀ id ∈ statements.flatMap Node.looped, middle id = none := by
        refine ends.changes.unset (fun id mem => starts.unset id (List.mem_append_right _ mem))
          (fun id mem here => ?_) fun id mem target => ?_ <;>
        obtain ⟨later, inside, mem⟩ := List.mem_flatMap.1 mem
        · exact disjoint.2.2 here (List.mem_flatMap.2 ⟨later, inside, later.looped_subset mem⟩)
        · exact sheltered later inside id target mem
      have followedRest := rest middle (region ++ statement.identities) between affected after
        session (ends.starts starts unset)
      rw [Step.bind_ok ran]
      refine followedRest.mono fun next pending last restEnds =>
        restEnds.widen (ends.changes.mono (List.subset_append_left _ _)
          (List.filterMap_subset _ (List.subset_append_left _ _)))
          (List.subset_append_right _ _) ?_ ?_
      · rw [List.append_assoc]
        exact List.Subset.refl _
      · exact List.append_subset.2 ⟨starts.holds.inside, starts.inside⟩

/-- The start of an expression inside the nodes. -/
theorem Starts.expression {ids looped : List NodeId} {store : Store}
    {region pending affected : List NodeId} {context : Context}
    (starts : layout.Starts ids looped store region pending affected context) (evaluator : Evaluator)
    (enough : layout.nodes.length ≤ budget) {node : Node} (wired : layout.Wired node)
    (within : node.identities ⊆ ids) {value : Value}
    (expected : Strict.evaluate layout.scope store node = .ok value) (session : Session) :
    ∃ after, evaluator.evaluateWithin budget node.id ⟨context, session⟩ =
        (.ok value, ⟨after, session⟩) ∧
      layout.Ends node.identities store region affected context store pending after ∧
      context.Keeps after := by
  obtain ⟨after, evaluated, holds, keeps⟩ := starts.holds.evaluate evaluator enough
    wired (List.Subset.trans within starts.inside) (fun id mem => starts.unused id (within mem))
    expected session
  exact ⟨after, evaluated, { holds, waits := starts.waits.keeps keeps, changes := .keeps keeps },
    keeps⟩

theorem identities_subset_of_child {id : NodeId} {kind : Kind Node} {child : Node}
    (mem : child ∈ kind.children) : child.identities ⊆ (Node.mk id kind).identities :=
  Node.identities_subset (Node.mem_preorder_of_mem_children mem child.self_mem_preorder)

section Declaration

variable {id : NodeId} {initializer : Node} {value : Value} {ids looped : List NodeId}
  {store : Store} {region pending affected : List NodeId} {context : Context}
  (starts : layout.Starts ids looped store region pending affected context)

include starts

/-- A variable that was assigned before is left as it is. -/
theorem Starts.declared_kept (known : store id = some value) :
    layout.Ends ids store region affected context store (pending ++ [id]) context where
  holds := starts.holds.mono (List.subset_append_left _ _) (List.subset_append_left _ _)
    (List.Subset.refl _) (List.append_subset.2 ⟨starts.holds.inside, starts.inside⟩)
  waits :=
    { stored := fun declaration mem => by
        rcases List.mem_append.1 mem with before | last
        · exact starts.waits.stored declaration before
        · exact ⟨value, List.mem_singleton.1 last ▸ known⟩
      waiting := fun declaration value' same unknown =>
        (starts.waits.waiting declaration value' same unknown).imp_left
          fun mem => List.mem_append_left _ mem }
  changes := .keeps (.refl context)

variable (unset : store id = none)

include unset

/-- What the context owes for other variables is not changed. -/
theorem Starts.owed_declared (declaration : NodeId) {before : Value}
    (same : store declaration = some before) :
    layout.Owed (store.set id value) (region ++ ids) context declaration := by
  have owed := (starts.holds.mono (List.subset_append_left region ids)
    (List.subset_append_left region ids) (List.Subset.refl _)
    (List.append_subset.2 ⟨starts.holds.inside, starts.inside⟩)).owed declaration before same
  have still {other : NodeId} {value' : Value} (known : store other = some value') :
      store.set id value other = some value' := by
    rw [store.set_of_ne value (Store.ne_of_unset unset known), known]
  refine owed.carry (fun other before after known now => .inr ⟨rfl, ?_⟩)
    (fun _ _ _ _ _ _ _ known => still known) (fun _ _ _ => rfl) (still same)
  rw [still known] at now
  exact Option.some.inj now

variable (here : id ∈ ids)

include here

/-- For the variable itself it owes the value of the initializer over what was in the store
before. -/
theorem Starts.owed_initializer
    (found : layout.base.thunk? id = some { dependencies := [initializer.id], recipe := .relay })
    (subset : initializer.identities ⊆ ids)
    (reads : layout.plan.readsOf id = Strict.reads layout.scope initializer)
    (wired : layout.Wired initializer)
    (expected : Strict.evaluate layout.scope store initializer = .ok value) :
    layout.Owed (store.set id value) (region ++ ids) context id := by
  have unknown : context.value? id = none :=
    starts.holds.fresh id (starts.inside here) (starts.unused id here) unset (by rw [found]; rfl)
  let earlier : Store := fun read => if read ∈ layout.plan.readsOf id then store read else none
  have seen {read : NodeId} {value' : Value} (known : earlier read = some value') :
      read ∈ layout.plan.readsOf id ∧ store read = some value' := by
    by_cases mem : read ∈ layout.plan.readsOf id
    · exact ⟨mem, by rwa [show earlier read = store read from if_pos mem] at known⟩
    · rw [show earlier read = none from if_neg mem] at known
      cases known
  refine .deferred unknown (store.set_self id value) (List.mem_append_right _ here)
    (List.Subset.trans subset (List.subset_append_right _ _)) found wired
    (fun read value' known => ⟨(seen known).1, ?_⟩)
    ((Strict.evaluates_of_evaluate expected).mono fun read mem value' known => ?_)
    (starts.holds.agrees wired (List.Subset.trans subset starts.inside)
      (fun id mem => starts.unused id (subset mem)) earlier)
    fun read value' known => starts.owed_declared unset read (seen known).2
  · rw [store.set_of_ne value (Store.ne_of_unset unset (seen known).2)]
    exact (seen known).2
  · rw [← reads] at mem
    rw [show earlier read = store read from if_pos mem]
    exact known

/-- A variable is added to the store, while the context still has its initializer. -/
theorem Starts.declared (mem : id ∈ layout.own)
    (owed : layout.Owed (store.set id value) (region ++ ids) context id) :
    layout.Ends ids store region affected context (store.set id value) (pending ++ [id])
      context where
  holds :=
    { laid := starts.holds.laid
      idle := starts.holds.idle
      nested := List.Subset.refl _
      inside := List.append_subset.2 ⟨starts.holds.inside, starts.inside⟩
      known := fun declaration value' same => by
        by_cases own : declaration = id
        · exact own ▸ mem
        · rw [store.set_of_ne value own] at same
          exact starts.holds.known declaration value' same
      owed := fun declaration value' same => by
        by_cases own : declaration = id
        · exact own ▸ owed
        · rw [store.set_of_ne value own] at same
          exact starts.owed_declared unset declaration same
      fresh := fun other inside unused none => by
        have apart : other ≠ id := by
          rintro rfl
          exact unused (List.mem_append_right _ here)
        rw [store.set_of_ne value apart] at none
        exact starts.holds.fresh other inside
          (fun before => unused (List.mem_append_left _ before)) none
      assigned := fun declaration mem => by
        obtain ⟨own, used, known⟩ := starts.holds.assigned declaration mem
        refine ⟨own, ?_, known⟩
        by_cases same : declaration = id
        · exact .inl (List.mem_append_right _ (same ▸ here))
        · rw [store.set_of_ne value same]
          exact used.imp_left fun before => List.mem_append_left _ before }
  waits :=
    { stored := fun declaration mem => by
        rcases List.mem_append.1 mem with before | last
        · obtain ⟨value', same⟩ := starts.waits.stored declaration before
          exact ⟨value', by rw [store.set_of_ne value (Store.ne_of_unset unset same), same]⟩
        · cases List.mem_singleton.1 last
          exact ⟨value, store.set_self _ value⟩
      waiting := fun declaration value' same unknown => by
        by_cases own : declaration = id
        · exact .inl (List.mem_append_right _ (List.mem_singleton.2 own))
        · rw [store.set_of_ne value own] at same
          exact (starts.waits.waiting declaration value' same unknown).imp_left
            fun before => List.mem_append_left _ before }
  changes :=
    { changed := fun declaration absent =>
        .inl (store.set_of_ne value fun own => absent (own ▸ here))
      rebound := fun _ mem => mem }

end Declaration

theorem simulates_declaration {id : NodeId} {name : String} {type? : Option Node}
    {initializer : Node} (mem : id ∈ layout.own)
    (found : layout.base.thunk? id = some { dependencies := [initializer.id], recipe := .relay })
    (reads : layout.plan.readsOf id = Strict.reads layout.scope initializer)
    (wired : layout.Wired initializer) :
    layout.SimulatesStatement limits evaluator budget
      (.mk id (.variableDecl name type? (some initializer))) := by
  intro store region pending affected context session starts
  have here : id ∈ (Node.mk id (.variableDecl name type? (some initializer))).identities :=
    Node.id_mem_identities (Node.self_mem_preorder _)
  have subset : initializer.identities ⊆
      (Node.mk id (.variableDecl name type? (some initializer))).identities :=
    identities_subset_of_child (List.mem_append_right _ List.mem_cons_self)
  rw [Strict.execute, Statement.execute]
  cases stored : store id with
  | some value =>
    exact ⟨pending ++ [id], context, rfl, starts.declared_kept stored⟩
  | none =>
    refine follows_evaluate fun value expected => ⟨pending ++ [id], context, rfl, ?_⟩
    exact starts.declared stored here mem
      (starts.owed_initializer stored here found subset reads wired expected)

variable (enough : layout.nodes.length ≤ budget)

include enough

theorem simulates_return {id : NodeId} {expression : Node} (wired : layout.Wired expression) :
    layout.SimulatesStatement limits evaluator budget
      (.mk id (.returnStatement (some expression))) := by
  intro store region pending affected context session starts
  rw [Strict.execute, Statement.execute]
  refine follows_evaluate fun value expected => ?_
  obtain ⟨after, evaluated, -, -⟩ := starts.expression evaluator enough wired
    (identities_subset_of_child List.mem_cons_self) expected session
  change (_ : Except EvalError Flow × Machine).1 = _
  dsimp only [Node.kind_mk]
  rw [Step.bind_ok evaluated]
  rfl

theorem simulates_expression {id : NodeId} {expression : Node} (wired : layout.Wired expression) :
    layout.SimulatesStatement limits evaluator budget (.mk id (.expressionStatement expression)) := by
  intro store region pending affected context session starts
  have subset : expression.identities ⊆ (Node.mk id (.expressionStatement expression)).identities :=
    identities_subset_of_child List.mem_cons_self
  -- An assignment is no expression, so both sides evaluate the expression as it is.
  have deferred : Statement.executeExpression layout.plan (evaluator.evaluateWithin budget)
      expression pending = (do
        let _ ← evaluator.evaluateWithin budget expression.id
        return .next pending) := by
    cases wired <;> rfl
  have plain : ∀ target value, expression.kind ≠ .assignment target value := by
    cases wired <;> intro _ _ same <;> cases same
  rw [Strict.execute_expressionStatement _ _ _ _ plain, Statement.execute_expressionStatement,
    deferred]
  refine follows_evaluate fun value expected => ?_
  obtain ⟨after, evaluated, ends, -⟩ := starts.expression evaluator enough wired
    subset expected session
  refine ⟨pending, after, ?_, ends.widen (.keeps (.refl context)) subset ?_ ?_⟩
  · rw [Step.bind_ok evaluated]
    rfl
  · exact List.append_subset.2 ⟨List.subset_append_left _ _,
      List.Subset.trans subset (List.subset_append_right _ _)⟩
  · exact List.append_subset.2 ⟨starts.holds.inside, starts.inside⟩

theorem simulates_branch {id : NodeId} {condition : Node} {block : List Node}
    (wired : layout.Wired condition) (body : layout.SimulatesBlock limits evaluator budget block) :
    layout.SimulatesStatement limits evaluator budget (.mk id (.branch condition block)) := by
  intro store region pending affected context session starts
  have ids : (Node.mk id (.branch condition block)).identities =
      id :: (condition.identities ++ block.flatMap Node.identities) := Node.identities_eq _
  have below : condition.identities ++ block.flatMap Node.identities ⊆
      (Node.mk id (.branch condition block)).identities := ids ▸ List.subset_cons_self _ _
  have looped : block.flatMap Node.looped ⊆ (Node.mk id (.branch condition block)).looped := by
    intro inner mem
    obtain ⟨statement, inside, mem⟩ := List.mem_flatMap.1 mem
    exact Node.looped_child (List.mem_cons_of_mem _ inside) mem
  have inside := List.append_subset.2 ⟨starts.holds.inside, starts.inside⟩
  have parts := starts.part (ids ▸ List.sublist_cons_self _ _) looped
  have first : condition.identities ⊆ (Node.mk id (.branch condition block)).identities :=
    List.Subset.trans (List.subset_append_left _ _) below
  have second : block.flatMap Node.identities ⊆
      (Node.mk id (.branch condition block)).identities :=
    List.Subset.trans (List.subset_append_right _ _) below
  rw [Strict.execute, Statement.execute_branch]
  refine follows_evaluate fun value expected => follows_truth fun b holds => ?_
  obtain ⟨after, evaluated, ends, -⟩ := parts.expression evaluator enough wired
    (List.subset_append_left _ _) expected session
  rw [Step.bind_ok evaluated, Step.bind_ok (Eval.condition_ok holds _)]
  cases b with
  | false =>
    refine ⟨pending, after, rfl, ends.widen (.keeps (.refl context)) first ?_ inside⟩
    exact List.append_subset.2 ⟨List.subset_append_left _ _,
      List.Subset.trans first (List.subset_append_right _ _)⟩
  | true =>
    have followed := body store (region ++ condition.identities) pending affected after session
      (ends.starts parts parts.unset)
    refine followed.mono fun next pending last blockEnds => blockEnds.widen
      (ends.changes.mono first (List.filterMap_subset _ first)) second ?_ inside
    rw [List.append_assoc]
    exact List.append_subset.2 ⟨List.subset_append_left _ _,
      List.Subset.trans below (List.subset_append_right _ _)⟩

theorem simulates_assignment {id place declaration : NodeId} {target value : Node}
    (resolved : layout.scope.resolve target.id = some declaration)
    (planned : layout.plan.target? place = some declaration) (own : declaration ∈ layout.own)
    (wired : layout.Wired value) :
    layout.SimulatesStatement limits evaluator budget
      (.mk id (.expressionStatement (.mk place (.assignment target value)))) := by
  intro store region pending affected context session starts
  have inner : (Node.mk place (.assignment target value)).identities ⊆
      (Node.mk id (.expressionStatement (.mk place (.assignment target value)))).identities :=
    identities_subset_of_child List.mem_cons_self
  have here := inner (Node.id_mem_identities (Node.self_mem_preorder _))
  have subset : value.identities ⊆
      (Node.mk id (.expressionStatement (.mk place (.assignment target value)))).identities :=
    List.Subset.trans
      (identities_subset_of_child (List.mem_cons_of_mem _ List.mem_cons_self)) inner
  rw [Node.id_mk] at here
  rw [Strict.execute, Statement.execute_expressionStatement]
  generalize (Node.mk id (.expressionStatement (.mk place (.assignment target value)))).identities =
    ids at *
  have inside := List.append_subset.2 ⟨starts.holds.inside, starts.inside⟩
  have targeted : declaration ∈ ids.filterMap layout.plan.target? :=
    List.mem_filterMap.2 ⟨place, here, planned⟩
  refine follows_evaluate fun result expected => ?_
  rw [resolved]
  obtain ⟨rest, middle, settled, holds, keeps, subsetRest, outcome⟩ :=
    starts.holds.settle evaluator enough starts.waits.stored [declaration] session
  obtain ⟨waits, unread⟩ := starts.waits.settled keeps subsetRest
    (List.cons_subset.2 ⟨starts.targets targeted, List.nil_subset _⟩) outcome
  obtain ⟨after, evaluated, ends, keepsRest⟩ :=
    Starts.expression { starts with holds, waits } evaluator enough wired subset
      expected session
  have wide : region ++ value.identities ⊆ region ++ ids :=
    List.append_subset.2 ⟨List.subset_append_left _ _,
      List.Subset.trans subset (List.subset_append_right _ _)⟩
  refine ⟨rest, after.rebind declaration result, ?_, ?_, ?_, ?_⟩
  · unfold Statement.executeExpression
    dsimp only [Node.kind_mk, Node.id_mk]
    rw [planned]
    dsimp only
    rw [Step.bind_ok settled, Step.bind_ok evaluated]
    rfl
  · refine (ends.holds.mono wide wide (List.Subset.refl _) inside).assign own ?_ result
    intro other value' same unknown mem
    exact unread other value' same (keepsRest.unknown unknown) declaration mem
      (List.mem_singleton.2 rfl)
  · exact ends.waits.assign declaration result
  · refine (Changes.keeps (keeps.trans keepsRest)).trans
      { changed := fun other absent => ?_
        rebound := fun other mem => ?_ }
    · by_cases same : other = declaration
      · subst same
        rw [store.set_self]
        exact .inr ⟨(Context.mem_rebound_rebind _ _ _).2 (.inl rfl), targeted, rfl⟩
      · exact .inl (store.set_of_ne result same)
    · exact (Context.mem_rebound_rebind _ _ _).2 (.inr mem)

/-- Between the turns of a loop, nothing of the loop is in the store, and no variable whose
initializer is deferred reads what the loop assigns. -/
structure Turning (layout : Layout) (subtree : List NodeId) (store : Store)
    (region pending affected : List NodeId) (context : Context) : Prop where
  holds : layout.Holds store region (region ++ subtree) context
  waits : layout.Waits store pending affected context
  unset : ∀ id ∈ subtree, store id = none
  unread : ∀ declaration value, store declaration = some value →
    context.value? declaration = none →
      ∀ read ∈ layout.plan.readsOf declaration, read ∉ subtree.filterMap layout.plan.target?

section Loop

variable {condition : Node} {block : List Node} {region subtree : List NodeId}
  (same : subtree = condition.identities ++ block.flatMap Node.identities)
  (apart : ∀ id ∈ subtree, id ∉ region)
  {pending affected : List NodeId} {store next : Store} {context turn : Context} {session : Session}
  (turning : layout.Turning subtree store region pending affected context)

include turning

omit enough in
/-- A turn that comes to its end leads to the next one. -/
theorem Turning.close {started : Context}
    (holds : layout.Holds next (region ++ subtree) (region ++ subtree) turn)
    (changes : Changes subtree (subtree.filterMap layout.plan.target?) store next started turn) :
    layout.Turning subtree (next.without subtree) region pending affected (context.adopt turn) where
  holds := turning.holds.closeTurn turning.unset turning.unread holds changes
  waits := turning.waits.closeTurn turning.unset holds changes
  unset _ mem := next.without_of_mem mem
  unread declaration value stored unknown := by
    rcases holds.adopted _ changes stored with now | ⟨still, before⟩
    · rw [unknown] at now
      cases now
    · exact turning.unread declaration value before (still.symm.trans unknown)

include same apart

/-- The condition is evaluated at the start of a turn. -/
theorem Turning.test (evaluator : Evaluator) (wired : layout.Wired condition)
    {value : Value} {b : Bool}
    (expected : Strict.evaluate layout.scope store condition = .ok value)
    (truth : value.boolean? = some b) :
    ∃ turn, (do Eval.condition (← evaluator.evaluateWithin budget condition.id) : Eval Bool)
        ⟨context.copy.forget subtree, session⟩ = (.ok b, ⟨turn, session⟩) ∧
      layout.Ends condition.identities store region (subtree.filterMap layout.plan.target?)
        (context.copy.forget subtree) store [] turn := by
  have inside : condition.identities ⊆ subtree := same ▸ List.subset_append_left _ _
  have nodes := List.append_subset.1 turning.holds.inside
  obtain ⟨turn, evaluated, holds, keeps⟩ :=
    (turning.holds.openTurn apart turning.unset).evaluate evaluator enough wired
      (List.Subset.trans inside nodes.2) (fun id mem => apart id (inside mem)) expected session
  refine ⟨turn, by rw [Step.bind_ok evaluated, Eval.condition_ok truth],
    { holds
      waits := { stored := nofun, waiting := fun declaration value stored unknown => .inr ?_ }
      changes := .keeps keeps }⟩
  have forgotten := keeps.unknown unknown
  rw [Context.value?_forget, if_neg fun both => ?_] at forgotten
  · exact turning.unread declaration value stored forgotten
  · rw [turning.unset declaration both.1] at stored
    cases stored

omit enough in
/-- The body is executed in a turn where nothing of it was executed. -/
theorem Turning.starts (distinct : subtree.Nodup)
    (tested : layout.Ends condition.identities store region
      (subtree.filterMap layout.plan.target?) (context.copy.forget subtree) store [] turn) :
    layout.Starts (block.flatMap Node.identities) (block.flatMap Node.looped) store
      (region ++ condition.identities) [] (subtree.filterMap layout.plan.target?) turn := by
  have second : block.flatMap Node.identities ⊆ subtree := same ▸ List.subset_append_right _ _
  have disjoint := List.nodup_append'.1 (same ▸ distinct)
  exact
    { holds := tested.holds
      waits := tested.waits
      inside := List.Subset.trans second (List.append_subset.1 turning.holds.inside).2
      distinct := disjoint.2.1
      unused := fun id mem inside => by
        rcases List.mem_append.1 inside with before | here
        · exact apart id (second mem) before
        · exact disjoint.2.2 here mem
      targets := List.filterMap_subset _ second
      unset := fun id mem => by
        obtain ⟨statement, inside, mem⟩ := List.mem_flatMap.1 mem
        exact turning.unset id (second
          (List.mem_flatMap.2 ⟨statement, inside, statement.looped_subset mem⟩)) }

/-- A loop follows its strict execution: it comes to the end of the loop, in a context that keeps
its own pending variables, or returns or fails with the strict execution. -/
theorem follows_repeatLoop (wired : layout.Wired condition)
    (body : layout.SimulatesBlock limits evaluator budget block) (distinct : subtree.Nodup)
    (turns : Nat) :
    Follows limits session
      (fun next final after => layout.Turning subtree next region final affected after ∧
        Changes subtree (subtree.filterMap layout.plan.target?) store next context after)
      (Strict.repeatLoop (Statement.overrun limits) subtree
        (fun store => do Strict.truth (← Strict.evaluate layout.scope store condition))
        (fun store => Strict.executeBlock .kept layout.scope limits block store) turns store)
      ((Statement.repeatLoop limits subtree
        (do Eval.condition (← evaluator.evaluateWithin budget condition.id))
        (Statement.executeBlock layout.plan limits (evaluator.evaluateWithin budget) block [])
        turns >>= Statement.afterLoop pending) ⟨context, session⟩) := by
  induction turns generalizing store context with
  | zero =>
    rw [Strict.repeatLoop]
    refine follows_condition fun value b expected truth => ?_
    obtain ⟨turn, opened, -⟩ := turning.test enough same apart evaluator wired expected truth
    cases b with
    | false =>
      rw [Step.bind_ok (Statement.repeatLoop_done limits opened 0)]
      exact ⟨pending, context, rfl, turning, .keeps (.refl context)⟩
    | true =>
      intro _
      exact Step.bind_fst_error (congrArg Prod.fst (Statement.repeatLoop_overrun limits opened))
  | succ turns ih =>
    rw [Strict.repeatLoop]
    refine follows_condition fun value b expected truth => ?_
    obtain ⟨turn, opened, tested⟩ := turning.test enough same apart evaluator wired expected truth
    cases b with
    | false =>
      rw [Step.bind_ok (Statement.repeatLoop_done limits opened (turns + 1))]
      exact ⟨pending, context, rfl, turning, .keeps (.refl context)⟩
    | true =>
      have followed := body _ _ _ _ turn session (turning.starts same apart distinct tested)
      cases strict : Strict.executeBlock .kept layout.scope limits block store with
      | error error =>
        rw [strict] at followed
        exact fun overrun =>
          Step.bind_fst_error (Statement.repeatLoop_error limits opened (followed overrun) turns)
      | ok flow =>
        rw [strict] at followed
        cases flow with
        | returned result =>
          change (_ : Except EvalError Flow × Machine).1 = _
          rw [Step.bind_fst_ok (Statement.repeatLoop_returned limits opened followed turns)]
          rfl
        | next next =>
          obtain ⟨pendingInside, after, ran, ends⟩ := followed
          have second : block.flatMap Node.identities ⊆ subtree :=
            same ▸ List.subset_append_right _ _
          have holds := ends.holds
          rw [List.append_assoc, ← same] at holds
          have changes := ends.changes.mono second (List.filterMap_subset _ second)
          rw [Step.bind_congr (Statement.repeatLoop_next limits opened ran turns)]
          exact (ih (turning.close holds changes)).mono fun last _ final ⟨ended, later⟩ =>
            ⟨ended, (changes.closeTurn holds).trans later⟩

end Loop

theorem simulates_loop {id : NodeId} {condition : Node} {block : List Node}
    (subtree : layout.plan.subtree id = (condition :: block).flatMap Node.identities)
    (wired : layout.Wired condition) (body : layout.SimulatesBlock limits evaluator budget block) :
    layout.SimulatesStatement limits evaluator budget (.mk id (.loop condition block)) := by
  intro store region pending affected context session starts
  have ids : (Node.mk id (.loop condition block)).identities =
      id :: (condition.identities ++ block.flatMap Node.identities) := Node.identities_eq _
  have locals : (Node.mk id (.loop condition block)).descendants.map Node.id =
      condition.identities ++ block.flatMap Node.identities := Node.map_id_descendants _
  have looped := Node.subset_looped id condition block
  rw [Strict.execute, Statement.execute_loop, locals, subtree, List.flatMap_cons]
  rw [locals] at looped
  generalize loop : condition.identities ++ block.flatMap Node.identities = nodes at *
  have sublist : nodes.Sublist (Node.mk id (.loop condition block)).identities :=
    ids ▸ List.sublist_cons_self _ _
  have inner := starts.part sublist looped
  have wide : region ++ nodes ⊆ region ++ (Node.mk id (.loop condition block)).identities :=
    List.append_subset.2 ⟨List.subset_append_left _ _,
      List.Subset.trans sublist.subset (List.subset_append_right _ _)⟩
  have inside := List.append_subset.2 ⟨starts.holds.inside, starts.inside⟩
  obtain ⟨rest, middle, settled, holds, keeps, subsetRest, outcome⟩ :=
    starts.holds.settle evaluator enough starts.waits.stored (nodes.filterMap layout.plan.target?)
      session
  obtain ⟨waits, unread⟩ := starts.waits.settled keeps subsetRest inner.targets outcome
  rw [Step.bind_ok settled]
  have turning : layout.Turning nodes store region rest affected middle :=
    { holds := holds.mono (List.Subset.refl _) (List.subset_append_left _ _)
        (List.subset_append_left _ _) (List.append_subset.2 ⟨starts.holds.inside, inner.inside⟩)
      waits
      unset := inner.unset
      unread }
  refine (follows_repeatLoop enough loop.symm inner.unused turning wired body inner.distinct
    _).mono fun next pending after ended => ?_
  obtain ⟨ended, changes⟩ := ended
  exact
    { holds := ended.holds.mono (List.subset_append_left _ _) wide (List.Subset.refl _) inside
      waits := ended.waits
      changes := (Changes.keeps keeps).trans
        (changes.mono sublist.subset (List.filterMap_subset _ sublist.subset)) }

omit enough in
/-- The execution of a block follows its strict execution if that of its statements does. -/
theorem simulates_block {block : List Node} (sheltered : layout.Sheltered block)
    (each : ∀ statement ∈ block, layout.SimulatesStatement limits evaluator budget statement) :
    layout.SimulatesBlock limits evaluator budget block := by
  induction block with
  | nil => exact simulates_nil
  | cons statement block ih =>
    obtain ⟨first, rest⟩ := List.pairwise_cons.1 sheltered
    exact simulates_cons (each statement List.mem_cons_self)
      (ih rest fun other mem => each other (List.mem_cons_of_mem _ mem)) first

/-- The execution of a statement whose nodes have their recipes follows its strict execution. -/
theorem simulates_execute {statement : Node} (wired : layout.WiredStatement statement) :
    layout.SimulatesStatement limits evaluator budget statement := by
  induction wired with
  | declaration mem found reads wired => exact simulates_declaration mem found reads wired
  | branch wired sheltered _ ih =>
    exact simulates_branch enough wired (simulates_block sheltered ih)
  | loop subtree wired sheltered _ ih =>
    exact simulates_loop enough subtree wired (simulates_block sheltered ih)
  | returnUnit =>
    intro store region pending affected context session starts
    rw [Strict.execute, Statement.execute]
    rfl
  | returnValue wired => exact simulates_return enough wired
  | assignment resolved planned mem wired =>
    exact simulates_assignment enough resolved planned mem wired
  | expression wired => exact simulates_expression enough wired

/-- So does the execution of wired statements, one after the other. -/
theorem simulates_executeBlock {statements : List Node} (sheltered : layout.Sheltered statements)
    (wired : ∀ statement ∈ statements, layout.WiredStatement statement) :
    layout.SimulatesBlock limits evaluator budget statements :=
  simulates_block sheltered fun statement mem => simulates_execute enough (wired statement mem)

end Simulates

end Layout

end DeclLang
