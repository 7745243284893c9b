import DeclLang.Proofs.KeptVariables

/-!
# Later reads of a variable

**Input.**  Statements that are executed after a variable was declared.

**Moments.**  `Statement.Reaches`: the machines that the execution comes to, between statements and
between the steps of an assignment, inside the blocks of branches and in every turn of a loop.

**Results.**
* `Compilation.holds_of_reaches`: at all these moments the value of a variable is held that was guarded
  at the beginning.
* `Compilation.evaluateWithin_of_declared`: after the statements and at all moments of their
  execution, the variable has the value that its initializer had at the declaration, whatever else
  the statements call, assign or declare, and however they end.
-/

namespace DeclLang

open Step (Keeps Ensures)
open Inference (reached)

/-- The machine in which a turn of a loop begins. -/
def Machine.turn (machine : Machine) (subtree : List NodeId) : Machine :=
  { machine with context := machine.context.copy.forget subtree }

namespace Statement

/-- What is executed: statements when some variables are pending, or the turns of a loop. -/
inductive Work where
  | block (statements : List Node) (pending : List NodeId)
  | turns (loop : NodeId) (condition : Node) (block : List Node)

section

variable (plan : Plan) (limits : Limits) (evaluate : NodeId → Eval Value)

/-- The machines that an execution comes to from a machine.  How many turns a loop may take is not
asked. -/
inductive Reaches : Work → Machine → Machine → Prop
  | now {work : Work} {machine : Machine} : Reaches work machine machine
  | ended {statement : Node} {statements : List Node} {pending : List NodeId} {machine : Machine} :
    Reaches (.block (statement :: statements) pending) machine
      (execute plan limits evaluate statement pending machine).2
  | next {statement : Node} {statements : List Node} {pending rest : List NodeId}
    {machine after moment : Machine}
    (ran : execute plan limits evaluate statement pending machine = (.ok (.next rest), after))
    (later : Reaches (.block statements rest) after moment) :
    Reaches (.block (statement :: statements) pending) machine moment
  | assigning {id : NodeId} {expression target value : Node} {statements : List Node}
    {pending rest : List NodeId} {declaration : NodeId} {machine after : Machine}
    (assigns : expression.kind = .assignment target value)
    (planned : plan.target? expression.id = some declaration)
    (settled : settle plan evaluate [declaration] pending machine = (.ok rest, after)) :
    Reaches (.block (.mk id (.expressionStatement expression) :: statements) pending) machine after
  | branch {id : NodeId} {condition : Node} {block statements : List Node} {pending : List NodeId}
    {machine after moment : Machine}
    (holds : (do Eval.condition (← evaluate condition.id)) machine = (.ok true, after))
    (inside : Reaches (.block block pending) after moment) :
    Reaches (.block (.mk id (.branch condition block) :: statements) pending) machine moment
  | loop {id : NodeId} {condition : Node} {block statements : List Node}
    {pending rest : List NodeId} {machine after moment : Machine}
    (settled : settle plan evaluate ((plan.subtree id).filterMap plan.target?) pending machine =
      (.ok rest, after))
    (inside : Reaches (.turns id condition block) after moment) :
    Reaches (.block (.mk id (.loop condition block) :: statements) pending) machine moment
  | test {loop : NodeId} {condition : Node} {block : List Node} {machine : Machine} :
    Reaches (.turns loop condition block) machine (machine.turn (plan.subtree loop))
  | body {loop : NodeId} {condition : Node} {block : List Node} {machine turn moment : Machine}
    (holds : (do Eval.condition (← evaluate condition.id)) (machine.turn (plan.subtree loop)) =
      (.ok true, turn))
    (inside : Reaches (.block block []) turn moment) :
    Reaches (.turns loop condition block) machine moment
  | again {loop : NodeId} {condition : Node} {block : List Node} {rest : List NodeId}
    {machine turn after moment : Machine}
    (holds : (do Eval.condition (← evaluate condition.id)) (machine.turn (plan.subtree loop)) =
      (.ok true, turn))
    (ran : executeBlock plan limits evaluate block [] turn = (.ok (.next rest), after))
    (later : Reaches (.turns loop condition block)
      { after with context := machine.context.adopt after.context } moment) :
    Reaches (.turns loop condition block) machine moment

end

end Statement

namespace Compilation

open Statement (Work Reaches Assigns Ends)

/-- A statement of a function, below which nothing of `whole` stands and only targets are
assigned. -/
structure StandsApart (compilation : Compilation) (function : Node) (targets : NodeId → Prop)
    (whole : List NodeId) (statement : Node) : Prop where
  place : (some function, statement) ∈ reached none compilation.root
  others : ∀ inner ∈ statement.identities, inner ∉ whole
  planned : ∀ inner ∈ statement.identities, ∀ target,
    compilation.evaluator.plan.target? inner = some target → targets target

/-- The value can be derived from nodes of `whole`, of which the work assigns none before the value
is kept. -/
def Spares (compilation : Compilation) (function : Node) (targets : NodeId → Prop)
    (whole : List NodeId) (budget : Nat) (id : NodeId) (value : Value) : Work → Context → Prop
  | .block statements pending, context =>
    (∀ statement ∈ statements, compilation.StandsApart function targets whole statement) ∧
      context.Guards compilation.evaluator.plan targets whole budget id value pending
  | .turns loop condition block, context =>
    compilation.StandsApart function targets whole (.mk loop (.loop condition block)) ∧
      ∃ region ⊆ whole, region.length ≤ budget ∧ context.Offers region id value ∧
        ∀ target ∈ (compilation.evaluator.plan.subtree loop).filterMap
          compilation.evaluator.plan.target?, target ∉ region

section

variable {compilation : Compilation} {function : Node} {targets : NodeId → Prop}
  {whole : List NodeId} {budget : Nat} {id : NodeId} {value : Value}

/-- Testing a condition goes on to offer a value. -/
theorem condition_offers (evaluator : Evaluator) {region : List NodeId} {condition : NodeId}
    {machine after : Machine} {b : Bool} (offers : machine.context.Offers region id value)
    (ran : (do Eval.condition (← evaluator.evaluateWithin budget condition)) machine =
      (.ok b, after)) : after.context.Offers region id value := by
  have keeps : Keeps (Machine.Has (Context.Offers region id value) fun _ => True)
      (do Eval.condition (← evaluator.evaluateWithin budget condition)) :=
    (Statement.evaluateWithin_offers evaluator region condition).bind
      fun test _ => Eval.condition_keeps test
  have kept := (keeps machine ⟨offers, trivial⟩).1.1
  rwa [ran] at kept

namespace StandsApart

/-- The parts of a statement stand apart. -/
theorem child {statement child : Node}
    (apart : compilation.StandsApart function targets whole statement)
    (goes : Inference.passesOver statement = false)
    (within : Inference.functionBelow (some function) statement = some function)
    (below : child ∈ statement.children) :
    compilation.StandsApart function targets whole child := by
  have inside (inner : NodeId) (here : inner ∈ child.identities) :
      inner ∈ statement.identities := by
    rw [Node.identities_eq]
    exact List.mem_cons_of_mem _ (List.mem_flatMap.2 ⟨child, below, here⟩)
  exact ⟨reached_child apart.place goes within below,
    fun inner here => apart.others inner (inside inner here),
    fun inner here => apart.planned inner (inside inner here)⟩

variable (consistent : compilation.Consistent)

include consistent

/-- The whole statement goes on to guard the value. -/
theorem ends {statement : Node}
    (apart : compilation.StandsApart function targets whole statement)
    (free : ∀ target, targets target → target ≠ id) (limits : Limits) (pending : List NodeId) :
    Ends compilation.evaluator.plan targets whole budget id value
      (Context.Guards compilation.evaluator.plan targets whole budget id value pending)
      (Statement.execute compilation.evaluator.plan limits
        (compilation.evaluator.evaluateWithin budget) statement pending) := by
  have assigns : Assigns compilation.evaluator.plan targets statement := by
    have planned := apart.planned
    rw [consistent.plan] at planned ⊢
    exact Statement.assigns_of_identities consistent.distinct apart.place planned
  exact Statement.execute_ends free assigns pending

variable {loop : NodeId} {condition : Node} {block : List Node}
  (apart : compilation.StandsApart function targets whole (.mk loop (.loop condition block)))

include apart

/-- What is computed anew for a turn of a loop stands below it. -/
theorem subtree {inner : NodeId} (mem : inner ∈ compilation.evaluator.plan.subtree loop) :
    inner ∈ (Node.mk loop (.loop condition block)).identities := by
  rw [consistent.plan, Plan.subtree_loop consistent.distinct compilation.scope apart.place] at mem
  rw [Node.identities_eq]
  exact List.mem_cons_of_mem _ mem

theorem assigned {target : NodeId}
    (mem : target ∈ (compilation.evaluator.plan.subtree loop).filterMap
      compilation.evaluator.plan.target?) : targets target := by
  obtain ⟨place, here, found⟩ := List.mem_filterMap.1 mem
  exact apart.planned place (apart.subtree consistent here) target found

/-- The statements in a loop stand apart and only assign what is assigned below the loop. -/
theorem body {statement : Node} (mem : statement ∈ block) :
    compilation.StandsApart function
      (· ∈ (compilation.evaluator.plan.subtree loop).filterMap compilation.evaluator.plan.target?)
      whole statement := by
  have child := apart.child rfl rfl (List.mem_cons_of_mem condition mem)
  refine ⟨child.place, child.others, fun inner here target planned =>
    List.mem_filterMap.2 ⟨inner, ?_, planned⟩⟩
  rw [consistent.plan, Plan.subtree_loop consistent.distinct compilation.scope apart.place]
  exact List.mem_flatMap.2 ⟨statement, List.mem_cons_of_mem _ mem, here⟩

end StandsApart

namespace Spares

variable {machine after : Machine}

theorem holds {work : Work} {context : Context}
    (spares : compilation.Spares function targets whole budget id value work context) :
    context.Holds budget id value := by
  cases work with
  | block statements pending => exact spares.2.holds
  | turns loop condition block =>
    obtain ⟨-, region, -, enough, offers, -⟩ := spares
    exact ⟨region, enough, offers⟩

/-- The block of a branch spares the value if the branch does. -/
theorem branch {branch : NodeId} {condition : Node} {block statements : List Node}
    {pending : List NodeId}
    (spares : compilation.Spares function targets whole budget id value
      (.block (.mk branch (.branch condition block) :: statements) pending) machine.context)
    (holds : (do Eval.condition (← compilation.evaluator.evaluateWithin budget condition.id))
      machine = (.ok true, after)) :
    compilation.Spares function targets whole budget id value (.block block pending)
      after.context := by
  obtain ⟨apart, region, subset, enough, offers, covered⟩ := spares
  exact ⟨fun statement mem => (apart _ List.mem_cons_self).child rfl rfl
      (List.mem_cons_of_mem _ mem), region, subset, enough,
    condition_offers compilation.evaluator offers holds, covered⟩

variable (consistent : compilation.Consistent)

include consistent

/-- The statements after a statement spare the value if all of them do. -/
theorem next {statement : Node} {statements : List Node} {pending rest : List NodeId}
    {limits : Limits} (free : ∀ target, targets target → target ≠ id)
    (spares : compilation.Spares function targets whole budget id value
      (.block (statement :: statements) pending) machine.context)
    (ran : Statement.execute compilation.evaluator.plan limits
      (compilation.evaluator.evaluateWithin budget) statement pending machine =
        (.ok (.next rest), after)) :
    compilation.Spares function targets whole budget id value (.block statements rest)
      after.context := by
  obtain ⟨apart, guards⟩ := spares
  have ends := ((apart statement List.mem_cons_self).ends consistent free limits pending machine
    guards).2 rest
  rw [ran] at ends
  exact ⟨fun other mem => apart other (List.mem_cons_of_mem _ mem), ends rfl⟩

/-- The turns of a loop spare the value once it was settled for their assignments. -/
theorem loop {loop : NodeId} {condition : Node} {block statements : List Node}
    {pending rest : List NodeId} (free : ∀ target, targets target → target ≠ id)
    (spares : compilation.Spares function targets whole budget id value
      (.block (.mk loop (.loop condition block) :: statements) pending) machine.context)
    (settled : Statement.settle compilation.evaluator.plan
      (compilation.evaluator.evaluateWithin budget)
      ((compilation.evaluator.plan.subtree loop).filterMap compilation.evaluator.plan.target?)
      pending machine = (.ok rest, after)) :
    compilation.Spares function targets whole budget id value (.turns loop condition block)
      after.context := by
  obtain ⟨apart, guards⟩ := spares
  have apart := apart _ List.mem_cons_self
  obtain ⟨_, _, region, same, subset, enough, others, -, offers⟩ :=
    Statement.settle_guards free (fun target mem => apart.assigned consistent mem) pending guards
  cases settled.symm.trans same
  exact ⟨apart, region, subset, enough, offers, others⟩

section Turns

variable {loop : NodeId} {condition : Node} {block : List Node} {turn : Machine}
  (spares : compilation.Spares function targets whole budget id value
    (.turns loop condition block) machine.context)

include spares

/-- The condition of a loop is tested where the value is held. -/
theorem test : (machine.turn (compilation.evaluator.plan.subtree loop)).context.Holds budget id
    value := by
  obtain ⟨apart, region, subset, enough, offers, -⟩ := spares
  exact ⟨region, enough, offers.turn fun node mem here =>
    apart.others node (apart.subtree consistent here) (subset mem)⟩

variable (holds : (do Eval.condition (← compilation.evaluator.evaluateWithin budget condition.id))
  (machine.turn (compilation.evaluator.plan.subtree loop)) = (.ok true, turn))

include holds

/-- The body of a loop spares the value if its turns do. -/
theorem body : compilation.Spares function
    (· ∈ (compilation.evaluator.plan.subtree loop).filterMap compilation.evaluator.plan.target?)
    whole budget id value (.block block []) turn.context := by
  obtain ⟨apart, region, subset, enough, offers, others⟩ := spares
  refine ⟨fun statement mem => apart.body consistent mem, region, subset, enough,
    condition_offers compilation.evaluator (offers.turn fun node mem here => ?_) holds,
    fun target mem inside => absurd inside (others target mem)⟩
  exact apart.others node (apart.subtree consistent here) (subset mem)

/-- The further turns spare the value, too. -/
theorem again {limits : Limits} {rest : List NodeId}
    (ran : Statement.executeBlock compilation.evaluator.plan limits
      (compilation.evaluator.evaluateWithin budget) block [] turn = (.ok (.next rest), after)) :
    compilation.Spares function targets whole budget id value (.turns loop condition block)
      (machine.context.adopt after.context) := by
  obtain ⟨apart, region, subset, enough, offers, others⟩ := spares
  refine ⟨apart, region, subset, enough, offers.adopt fun target mem => others target ?_, others⟩
  have tests : Keeps (Machine.All (Context.AssignsIn
      (· ∈ (compilation.evaluator.plan.subtree loop).filterMap compilation.evaluator.plan.target?))
        fun _ => True)
      (do Eval.condition (← compilation.evaluator.evaluateWithin budget condition.id)) :=
    Statement.condition_assignsIn compilation.evaluator condition
  have opened := (tests (machine.turn (compilation.evaluator.plan.subtree loop))
    ⟨fun _ mem => absurd mem Std.TreeSet.not_mem_emptyc, fun _ _ => trivial⟩).1
  rw [holds] at opened
  have inside (statement : Node) (mem : statement ∈ block) (place : NodeId)
      (here : place ∈ statement.identities) : place ∈ compilation.evaluator.plan.subtree loop := by
    rw [consistent.plan, Plan.subtree_loop consistent.distinct compilation.scope apart.place]
    exact List.mem_flatMap.2 ⟨statement, List.mem_cons_of_mem _ mem, here⟩
  have runs : Keeps _ (Statement.executeBlock compilation.evaluator.plan limits
      (compilation.evaluator.evaluateWithin budget) block []) :=
    Statement.body_assignsIn compilation.evaluator inside
  have closed := (runs turn opened).1.1
  rw [ran] at closed
  exact closed target mem

end Turns

end Spares

/-- At all moments of an execution that spares what the value depends on, the value is held. -/
theorem holds_of_reaches (consistent : compilation.Consistent) {limits : Limits} {work : Work}
    {machine moment : Machine}
    (reaches : Reaches compilation.evaluator.plan limits
      (compilation.evaluator.evaluateWithin budget) work machine moment)
    (free : ∀ target, targets target → target ≠ id)
    (spares : compilation.Spares function targets whole budget id value work machine.context) :
    moment.context.Holds budget id value := by
  induction reaches generalizing targets with
  | now => exact spares.holds
  | ended =>
    obtain ⟨apart, guards⟩ := spares
    exact ((apart _ List.mem_cons_self).ends consistent free limits _ _ guards).1
  | next ran _ ih => exact ih free (Spares.next consistent free spares ran)
  | @assigning _ expression _ _ _ _ _ declaration _ _ _ planned settled =>
    obtain ⟨apart, guards⟩ := spares
    have inside := (apart _ List.mem_cons_self).child rfl rfl List.mem_cons_self
    have is (target : NodeId) (mem : target ∈ [declaration]) : targets target :=
      List.mem_singleton.1 mem ▸ inside.planned _
        (Node.id_mem_identities expression.self_mem_preorder) _ planned
    obtain ⟨_, _, region, same, -, enough, -, -, offers⟩ :=
      Statement.settle_guards free is _ guards
    cases settled.symm.trans same
    exact ⟨region, enough, offers⟩
  | branch holds _ ih => exact ih free (Spares.branch spares holds)
  | loop settled _ ih => exact ih free (Spares.loop consistent free spares settled)
  | test => exact Spares.test consistent spares
  | body holds _ ih =>
    exact ih (fun target mem => free target (spares.1.assigned consistent mem))
      (Spares.body consistent spares holds)
  | again holds ran _ ih => exact ih free (Spares.again consistent spares holds ran)

end

/-- A variable that is declared with an initializer of data keeps the value that the initializer has
there.  The statements after the declaration may be of any kind, end in any way, and assign what
the value depends on, as long as they do not assign the variable and every assignment settles it if
it matters to it.  Reads in between, also in the blocks of branches and in the turns of loops, give
the value if nothing of what it depends on is declared by these statements. -/
theorem evaluateWithin_of_declared {options : Options} {root : Node} {focus : Option NodeId}
    {before reports : Reports} {compilation : Compilation}
    (compiled : ofTree options root focus before = (.ok compilation, reports))
    {function : Node} {id : NodeId} {name : String} {type? : Option Node} {initializer : Node}
    {statements : List Node}
    (inside : ∀ statement ∈ statements,
      (some function, statement) ∈ reached none compilation.root)
    {machine : Machine} {region : List NodeId} (data : machine.context.Data region)
    (idle : ∀ other ∈ region, other ∉ machine.context.inProgress) (mem : id ∈ region)
    (unknown : machine.context.value? id = none)
    (recipe : machine.context.thunk? id =
      some { dependencies := [initializer.id], recipe := .relay })
    {budget : Nat} (enough : region.length ≤ budget) {value : Value}
    (declared : (compilation.evaluator.evaluateWithin budget initializer.id machine).1 = .ok value)
    {pending : List NodeId}
    (settled : ∀ place ∈ statements.flatMap Node.identities, ∀ target,
      compilation.evaluator.plan.target? place = some target → target ≠ id ∧
        (target ∈ region → id ∈ compilation.evaluator.plan.settled [target] (pending ++ [id])))
    (limits : Limits) :
    (compilation.evaluator.evaluateWithin budget id
      (Statement.executeBlock compilation.evaluator.plan limits
        (compilation.evaluator.evaluateWithin budget)
        (.mk id (.variableDecl name type? (some initializer)) :: statements) pending
          machine).2).1 = .ok value ∧
    ((∀ other ∈ region, other ∉ statements.flatMap Node.identities) →
      ∀ moment, Reaches compilation.evaluator.plan limits
        (compilation.evaluator.evaluateWithin budget) (.block statements (pending ++ [id])) machine
          moment →
        (compilation.evaluator.evaluateWithin budget id moment).1 = .ok value) := by
  have consistent := consistent_of_ofTree compiled
  have along : machine.context.Along region [] machine.context :=
    ⟨.refl region _, fun other here => iff_of_false (idle other here) List.not_mem_nil⟩
  have source : initializer.id ∈ region :=
    (data.recipe mem unknown recipe).2 _ List.mem_cons_self
  obtain ⟨level, derived⟩ := (Evaluator.evaluateWithin_ok_iff compilation.evaluator data source
    enough along).1 declared
  have derives : machine.context.Derives id value := by
    refine ⟨level + 1, ?_⟩
    rw [Context.derive?_of_thunk unknown recipe]
    exact Option.bind_eq_some_iff.2 ⟨value, derived, rfl⟩
  have guards : machine.context.Guards compilation.evaluator.plan
      (fun target => ∃ place ∈ statements.flatMap Node.identities,
        compilation.evaluator.plan.target? place = some target) region budget id value
      (pending ++ [id]) := by
    refine ⟨region, List.Subset.refl _, enough, ⟨data, mem, idle, derives⟩, ?_⟩
    rintro target ⟨place, below, planned⟩
    exact (settled place below target planned).2
  have others (target : NodeId) : (∃ place ∈ statements.flatMap Node.identities,
      compilation.evaluator.plan.target? place = some target) → target ≠ id := by
    rintro ⟨place, below, planned⟩
    exact (settled place below target planned).1
  have assigns (statement : Node) (here : statement ∈ statements) :
      Statement.Assigns compilation.evaluator.plan (fun target =>
        ∃ place ∈ statements.flatMap Node.identities,
          compilation.evaluator.plan.target? place = some target) statement := by
    rw [consistent.plan]
    exact Statement.assigns_of_identities consistent.distinct (inside statement here)
      fun place below target planned => ⟨place, List.mem_flatMap.2 ⟨statement, here, below⟩, planned⟩
  have left : Statement.execute compilation.evaluator.plan limits
      (compilation.evaluator.evaluateWithin budget)
      (.mk id (.variableDecl name type? (some initializer))) pending machine =
        (.ok (.next (pending ++ [id])), machine) := by
    rw [Statement.execute]
    rfl
  constructor
  · rw [Statement.executeBlock_cons, Step.bind_ok left]
    obtain ⟨⟨small, few, offers⟩, -⟩ :=
      Statement.executeBlock_ends others assigns (pending ++ [id]) machine guards
    exact Evaluator.evaluateWithin_of_offers compilation.evaluator offers few
  · intro apart moment reaches
    obtain ⟨small, few, offers⟩ := holds_of_reaches consistent reaches others
      ⟨fun statement here => ⟨inside statement here, fun inner below mem =>
          apart inner mem (List.mem_flatMap.2 ⟨statement, here, below⟩),
        fun inner below target planned =>
          ⟨inner, List.mem_flatMap.2 ⟨statement, here, below⟩, planned⟩⟩, guards⟩
    exact Evaluator.evaluateWithin_of_offers compilation.evaluator offers few

/-- A function that keeps a word in a variable, by way of another one, and then assigns the word in a
branch. -/
def keptWord : Node :=
  .mk 1 (.functionDecl "keep" [] [] (.mk 2 (.typeName "String" []))
    [.mk 3 (.variableDecl "word" none (some (.mk 4 (.literal (.string "one"))))),
      .mk 5 (.variableDecl "copy" none (some (.mk 6 (.identifier "word")))),
      .mk 7 (.variableDecl "kept" none (some (.mk 8 (.identifier "copy")))),
      .mk 9 (.branch (.mk 10 (.literal (.boolean true)))
        [.mk 11 (.expressionStatement (.mk 12 (.assignment (.mk 13 (.identifier "word"))
          (.mk 14 (.literal (.string "two"))))))]),
      .mk 15 (.returnStatement (some (.mk 16 (.identifier "kept"))))])

/-- The variable has the old word after the assignment, and whenever it is read before, also in the
branch. -/
theorem evaluateWithin_of_declared_keptWord :
    ∃ compilation reports closure,
      ofTree {} (.mk 0 (.program [keptWord])) none {} = (.ok compilation, reports) ∧
      closure ∈ (compilation.after [.evaluate 1]).session.closures ∧
      ((compilation.evaluator.evaluateWithin 6 7
        (Statement.executeBlock compilation.evaluator.plan {}
          (compilation.evaluator.evaluateWithin 6) ((Call.bodyOf keptWord).drop 2) [3, 5]
          ⟨closure.frame compilation.evaluator.plan [], {}⟩).2).1.toOption.bind Value.text?) =
            some "one" ∧
      ∀ moment, Reaches compilation.evaluator.plan {} (compilation.evaluator.evaluateWithin 6)
          (.block ((Call.bodyOf keptWord).drop 3) [3, 5, 7])
          ⟨closure.frame compilation.evaluator.plan [], {}⟩ moment →
        (compilation.evaluator.evaluateWithin 6 7 moment).1.toOption.bind Value.text? =
          some "one" := by
  have checked : ((ofTree {} (.mk 0 (.program [keptWord])) none {}).1.toOption.bind
      fun compilation => (compilation.after [.evaluate 1]).session.closures[0]?.bind fun closure =>
        let frame := closure.frame compilation.evaluator.plan []
        some (decide (frame.Data [7, 8, 5, 6, 3, 4]) &&
          [7, 8, 5, 6, 3, 4].all (fun id => !frame.inProgress.contains id) &&
          (frame.value? 7).isNone && (frame.thunk? 7).any (fun thunk =>
            thunk.dependencies == [8] && match thunk.recipe with | .relay => true | _ => false) &&
          ((compilation.evaluator.evaluateWithin 6 8 ⟨frame, {}⟩).1.toOption.bind Value.text? ==
            some "one") &&
          (((Call.bodyOf keptWord).drop 3).flatMap Node.identities).all fun place =>
            (compilation.evaluator.plan.target? place).all fun target => target != 7 &&
              (compilation.evaluator.plan.settled [target] ([3, 5] ++ [7])).contains 7)) =
                some true := by
    decide +kernel
  obtain ⟨compilation, compiled, holds⟩ := compiled_of_toOption checked
  obtain ⟨closure, made, holds⟩ := Option.bind_eq_some_iff.1 holds
  simp only [Option.some.injEq, Bool.and_eq_true, decide_eq_true_eq, beq_iff_eq,
    Option.isNone_iff_eq_none, Option.any_eq_true, List.all_eq_true, Option.all_eq_true,
    bne_iff_ne, List.contains_iff_mem, Bool.not_eq_true'] at holds
  obtain ⟨⟨⟨⟨⟨data, idle⟩, unknown⟩, recipe⟩, declared⟩, settled⟩ := holds
  obtain ⟨⟨dependencies, recipe⟩, found, same, relay⟩ := recipe
  obtain ⟨value, declared, word⟩ := Option.bind_eq_some_iff.1 declared
  have root := root_of_ofTree compiled
  have place : (none, keptWord) ∈ reached none compilation.root := by
    rw [root]
    exact Inference.mem_reached_of_visited (Inference.self_mem_reached none _) List.mem_cons_self
  have inside (statement : Node) (mem : statement ∈ (Call.bodyOf keptWord).drop 3) :
      (some keptWord, statement) ∈ reached none compilation.root :=
    reached_statement place (List.mem_of_mem_drop mem)
  have apart : ∀ other ∈ [7, 8, 5, 6, 3, 4],
      other ∉ ((Call.bodyOf keptWord).drop 3).flatMap Node.identities := by
    decide +kernel
  have recipe : (closure.frame compilation.evaluator.plan []).thunk? 7 =
      some { dependencies := [8], recipe := .relay } := by
    dsimp only at same relay
    subst same
    split at relay
    · exact found
    · cases relay
  have declared : (compilation.evaluator.evaluateWithin 6 8
      ⟨closure.frame compilation.evaluator.plan [], {}⟩).1 = .ok value := by
    cases outcome : (compilation.evaluator.evaluateWithin 6 8
        ⟨closure.frame compilation.evaluator.plan [], {}⟩).1 with
    | error error =>
      rw [outcome] at declared
      cases declared
    | ok other =>
      rw [outcome] at declared
      exact congrArg Except.ok (Option.some.inj declared)
  have idle (other : NodeId) (mem : other ∈ [7, 8, 5, 6, 3, 4]) :
      other ∉ (closure.frame compilation.evaluator.plan []).inProgress := by
    rw [← Std.TreeSet.contains_iff_mem, idle other mem]
    exact Bool.false_ne_true
  refine ⟨compilation, _, closure, compiled, Array.mem_of_getElem? made, ?_⟩
  have both : (compilation.evaluator.evaluateWithin 6 7
      (Statement.executeBlock compilation.evaluator.plan {}
        (compilation.evaluator.evaluateWithin 6)
        (.mk 7 (.variableDecl "kept" none (some (.mk 8 (.identifier "copy")))) ::
          (Call.bodyOf keptWord).drop 3) [3, 5]
        ⟨closure.frame compilation.evaluator.plan [], {}⟩).2).1 = .ok value ∧ _ :=
    evaluateWithin_of_declared compiled inside data idle List.mem_cons_self unknown recipe
      (Nat.le_refl 6) declared (fun place below target planned =>
        (settled place below target planned).imp_right fun covered _ => covered) {}
  obtain ⟨kept, reads⟩ := both
  constructor
  · exact (congrArg (fun outcome => outcome.toOption.bind Value.text?) kept).trans word
  · intro moment reaches
    rw [reads apart moment reaches]
    exact word

/-- A function that keeps a word by way of a nested function, and then assigns the word. -/
def nestedReader : Node :=
  .mk 1 (.functionDecl "keep" [] [] (.mk 2 (.typeName "String" []))
    [.mk 3 (.variableDecl "word" none (some (.mk 4 (.literal (.string "one"))))),
      .mk 5 (.functionDecl "look" [] [] (.mk 6 (.typeName "String" []))
        [.mk 7 (.returnStatement (some (.mk 8 (.identifier "word"))))]),
      .mk 9 (.variableDecl "kept" none (some (.mk 10 (.call (.mk 11 (.identifier "look")) [])))),
      .mk 12 (.expressionStatement (.mk 13 (.assignment (.mk 14 (.identifier "word"))
        (.mk 15 (.literal (.string "two")))))),
      .mk 16 (.returnStatement (some (.mk 17 (.identifier "kept"))))])

/-- Calls of functions of the program are no data: at its declaration the variable would have the
old word, but it is not settled for the assignment, and has the new word afterwards. -/
theorem nestedReader_changes :
    ((ofTree {} (.mk 0 (.program [nestedReader])) none {}).1.toOption.bind fun compilation =>
      (compilation.after [.evaluate 1]).session.closures[0]?.map fun closure =>
        let evaluate := compilation.evaluator.evaluateWithin 20
        let machine : Machine := { context := closure.frame compilation.evaluator.plan [] }
        let later := (Statement.executeBlock compilation.evaluator.plan {} evaluate
          (((Call.bodyOf nestedReader).drop 2).take 2) [3] machine).2
        ((evaluate 10 machine).1.map Value.text?, (evaluate 9 later).1.map Value.text?)) =
      some (.ok (some "one"), .ok (some "two")) := by
  decide +kernel

end Compilation

end DeclLang
