import DeclLang.Proofs.LazyExecution
import DeclLang.Proofs.OfferedValues
import DeclLang.Proofs.PlainFunctions

/-!
# Variables keep the values that they were declared with

**Input.**  A variable that is left pending with an initializer of data, and statements that are
executed after its declaration.

**Algorithm.**  Before a declaration is assigned, the pending variables that read it are settled,
and with them those that read the settled ones.  `Plan.settled` says which, and `Statement.tried`
what happens to each of them.

**Invariant.**  `Context.Guards`: the context offers the value of the variable, from a region in
which nothing is assigned before the variable is settled.

**Results.**
* `Statement.settle_eq`: settling tries one variable after the other, and always succeeds.
* `Statement.executeBlock_ends`: statements go on to guard the value, whatever else they call,
  assign or declare, and hold it however they end.
-/

namespace DeclLang

open Step (Keeps Ensures)
open Inference (reached)

namespace Plan

variable (plan : Plan)

/-- The initializer of a variable refers to an affected declaration. -/
def ReadsAny (affected : List NodeId) (id : NodeId) : Prop :=
  ∃ read ∈ plan.readsOf id, read ∈ affected

/-- The pending variables that are settled for affected declarations. -/
def settled : List NodeId → List NodeId → List NodeId
  | _, [] => []
  | affected, first :: pending =>
    if (plan.readsOf first).any affected.contains then first :: settled (first :: affected) pending
    else settled affected pending

/-- The pending variables that are left. -/
def unsettled : List NodeId → List NodeId → List NodeId
  | _, [] => []
  | affected, first :: pending =>
    if (plan.readsOf first).any affected.contains then unsettled (first :: affected) pending
    else first :: unsettled affected pending

variable {plan} {affected others pending : List NodeId} {id : NodeId}

theorem any_contains_iff :
    (plan.readsOf id).any affected.contains = true ↔ plan.ReadsAny affected id := by
  simp only [List.any_eq_true, List.contains_iff_mem, ReadsAny]

theorem readsAny_cons {first : NodeId} :
    plan.ReadsAny (first :: affected) id ↔
      first ∈ plan.readsOf id ∨ plan.ReadsAny affected id := by
  simp only [ReadsAny, List.mem_cons]
  constructor
  · rintro ⟨read, mem, rfl | inside⟩
    · exact .inl mem
    · exact .inr ⟨read, mem, inside⟩
  · rintro (mem | ⟨read, mem, inside⟩)
    · exact ⟨first, mem, .inl rfl⟩
    · exact ⟨read, mem, .inr inside⟩

theorem settled_cons_of_reads {first : NodeId} (reads : plan.ReadsAny affected first) :
    plan.settled affected (first :: pending) =
      first :: plan.settled (first :: affected) pending := by
  rw [settled, if_pos (any_contains_iff.2 reads)]

theorem settled_cons_of_not_reads {first : NodeId} (other : ¬plan.ReadsAny affected first) :
    plan.settled affected (first :: pending) = plan.settled affected pending := by
  rw [settled, if_neg (mt any_contains_iff.1 other)]

theorem unsettled_cons_of_reads {first : NodeId} (reads : plan.ReadsAny affected first) :
    plan.unsettled affected (first :: pending) = plan.unsettled (first :: affected) pending := by
  rw [unsettled, if_pos (any_contains_iff.2 reads)]

theorem unsettled_cons_of_not_reads {first : NodeId} (other : ¬plan.ReadsAny affected first) :
    plan.unsettled affected (first :: pending) = first :: plan.unsettled affected pending := by
  rw [unsettled, if_neg (mt any_contains_iff.1 other)]

/-- What is left reads nothing that is affected. -/
theorem not_readsAny_of_mem_unsettled (mem : id ∈ plan.unsettled affected pending) :
    ¬plan.ReadsAny affected id := by
  induction pending generalizing affected with
  | nil => cases mem
  | cons first pending ih =>
    by_cases reads : plan.ReadsAny affected first
    · rw [unsettled_cons_of_reads reads] at mem
      exact fun here => ih mem (readsAny_cons.2 (.inr here))
    · rw [unsettled_cons_of_not_reads reads] at mem
      rcases List.mem_cons.1 mem with rfl | later
      · exact reads
      · exact ih later

/-- Only what the pending variables read matters. -/
theorem settled_congr
    (same : ∀ id ∈ pending, plan.ReadsAny affected id ↔ plan.ReadsAny others id) :
    plan.settled affected pending = plan.settled others pending := by
  induction pending generalizing affected others with
  | nil => rfl
  | cons first pending ih =>
    have rest (id : NodeId) (mem : id ∈ pending) := same id (List.mem_cons_of_mem _ mem)
    by_cases reads : plan.ReadsAny affected first
    · rw [settled_cons_of_reads reads, settled_cons_of_reads ((same first List.mem_cons_self).1 reads)]
      refine congrArg (first :: ·) (ih fun id mem => ?_)
      rw [readsAny_cons, readsAny_cons, rest id mem]
    · rw [settled_cons_of_not_reads reads,
        settled_cons_of_not_reads (mt (same first List.mem_cons_self).2 reads)]
      exact ih rest

/-- More affected declarations settle more variables. -/
theorem settled_subset (subset : affected ⊆ others) :
    plan.settled affected pending ⊆ plan.settled others pending := by
  induction pending generalizing affected others with
  | nil => exact List.Subset.refl _
  | cons first pending ih =>
    by_cases reads : plan.ReadsAny affected first
    · have more : plan.ReadsAny others first :=
        have ⟨read, mem, inside⟩ := reads
        ⟨read, mem, subset inside⟩
      rw [settled_cons_of_reads reads, settled_cons_of_reads more]
      exact List.cons_subset_cons _ (ih (List.cons_subset_cons _ subset))
    · rw [settled_cons_of_not_reads reads]
      by_cases more : plan.ReadsAny others first
      · rw [settled_cons_of_reads more]
        exact List.subset_cons_of_subset _ (ih fun id mem => List.mem_cons_of_mem _ (subset mem))
      · rw [settled_cons_of_not_reads more]
        exact ih subset

theorem settled_subset_append (later : List NodeId) :
    plan.settled affected pending ⊆ plan.settled affected (pending ++ later) := by
  induction pending generalizing affected with
  | nil => exact List.nil_subset _
  | cons first pending ih =>
    rw [List.cons_append]
    by_cases reads : plan.ReadsAny affected first
    · rw [settled_cons_of_reads reads, settled_cons_of_reads reads]
      exact List.cons_subset_cons _ ih
    · rw [settled_cons_of_not_reads reads, settled_cons_of_not_reads reads]
      exact ih

/-- A variable that would be settled still would be once other declarations were affected, unless it
was settled for those. -/
theorem settled_or_settled_unsettled (mem : id ∈ plan.settled affected pending) :
    id ∈ plan.settled others pending ∨
      id ∈ plan.settled affected (plan.unsettled others pending) := by
  induction pending generalizing affected others with
  | nil => cases mem
  | cons first pending ih =>
    by_cases changed : plan.ReadsAny others first
    · rw [settled_cons_of_reads changed, unsettled_cons_of_reads changed, List.mem_cons]
      by_cases reads : plan.ReadsAny affected first
      · rw [settled_cons_of_reads reads] at mem
        rcases List.mem_cons.1 mem with rfl | later
        · exact .inl (.inl rfl)
        · refine (ih later).imp .inr fun left => ?_
          -- Nothing that is left reads the first variable.
          rwa [settled_congr fun other inside => ?_] at left
          rw [readsAny_cons, or_iff_right]
          exact fun here => not_readsAny_of_mem_unsettled inside (readsAny_cons.2 (.inl here))
      · rw [settled_cons_of_not_reads reads] at mem
        exact (ih mem).imp_left .inr
    · rw [settled_cons_of_not_reads changed, unsettled_cons_of_not_reads changed]
      by_cases reads : plan.ReadsAny affected first
      · rw [settled_cons_of_reads reads] at mem ⊢
        rcases List.mem_cons.1 mem with rfl | later
        · exact .inr List.mem_cons_self
        · exact (ih later).imp_right (List.mem_cons_of_mem _)
      · rw [settled_cons_of_not_reads reads] at mem ⊢
        exact ih mem

end Plan

namespace Statement

section Tried

variable {plan : Plan} {evaluate : NodeId → Eval Value} {machine after : Machine}
  {id other : NodeId} {error : EvalError}

/-- A variable is tried.  If that fails, the failure is kept for whoever reads the variable. -/
def tried (evaluate : NodeId → Eval Value) (machine : Machine) (id : NodeId) : Machine :=
  match evaluate id machine with
  | (.ok _, after) => after
  | (.error error, after) => { after with context := after.context.addThunk id (.failed error) }

theorem tried_ok {value : Value} (ran : evaluate id machine = (.ok value, after)) :
    tried evaluate machine id = after := by
  rw [tried, ran]

theorem tried_error (ran : evaluate id machine = (.error error, after)) :
    tried evaluate machine id =
      { after with context := after.context.addThunk id (.failed error) } := by
  rw [tried, ran]

/-- Keeping a failure reports nothing. -/
theorem session_tried : (tried evaluate machine id).session = (evaluate id machine).2.session := by
  unfold tried
  split <;> rename_i ran <;> rw [ran]

/-- Keeping a failure gives no node a value. -/
theorem value?_tried : (tried evaluate machine id).context.value? other =
    (evaluate id machine).2.context.value? other := by
  unfold tried
  split <;> rename_i ran <;> rw [ran]
  rfl

/-- Settling tries variables one after the other, and succeeds whether they fail or not. -/
theorem settle_eq (affected pending : List NodeId) (machine : Machine) :
    settle plan evaluate affected pending machine = (.ok (plan.unsettled affected pending),
      (plan.settled affected pending).foldl (tried evaluate) machine) := by
  induction pending generalizing affected machine with
  | nil => rfl
  | cons first pending ih =>
    by_cases reads : plan.ReadsAny affected first
    · rw [settle, if_pos (Plan.any_contains_iff.2 reads), Plan.unsettled_cons_of_reads reads,
        Plan.settled_cons_of_reads reads, List.foldl_cons]
      cases ran : evaluate first machine with
      | mk outcome after =>
        rw [Step.bind_ok (Eval.attempt_eq ran)]
        cases outcome with
        | ok value => rw [tried_ok ran, ← ih]
        | error error =>
          rw [tried_error ran, ← ih]
          rfl
    · rw [settle, if_neg (mt Plan.any_contains_iff.1 reads), Step.bind_ok (ih affected machine),
        Plan.unsettled_cons_of_not_reads reads, Plan.settled_cons_of_not_reads reads]
      rfl

end Tried

variable {plan : Plan} {limits : Limits} {evaluator : Evaluator} {budget : Nat}
  {region : List NodeId} {id : NodeId} {value : Value}

/-- A variable that fails when it is evaluated has nothing to offer, so that its failure may be
kept. -/
theorem offers_fail (enough : region.length ≤ budget) {first : NodeId} {machine after : Machine}
    (offers : machine.context.Offers region id value) {error : EvalError}
    (failed : evaluator.evaluateWithin budget first machine = (.error error, after)) :
    (after.context.addThunk first (.failed error)).Offers region id value := by
  have ran : (evaluator.evaluateWithin budget first machine).2 = after := congrArg Prod.snd failed
  have along := Evaluator.along_evaluateWithin evaluator offers.data offers.idle budget first
  have offersAfter := Evaluator.offers_evaluateWithin evaluator offers budget first
  rw [ran] at along offersAfter
  refine offersAfter.fail error fun mem other derives => ?_
  -- What could be derived afterwards could be derived before.
  have again := (Evaluator.evaluateWithin_ok_iff evaluator offersAfter.data mem enough
    ⟨.refl region _, fun node inside => iff_of_false (offersAfter.idle node inside)
      List.not_mem_nil⟩).2 derives
  have before := (Evaluator.evaluateWithin_ok_iff evaluator offers.data mem enough along).1 again
  have first := (Evaluator.evaluateWithin_ok_iff evaluator offers.data mem enough
    ⟨.refl region _, fun node inside => iff_of_false (offers.idle node inside)
      List.not_mem_nil⟩).2 before
  rw [failed] at first
  cases first

/-- Trying a variable, which then has the value that was offered for it, or is another one. -/
theorem tried_offers (evaluator : Evaluator) (enough : region.length ≤ budget) (first : NodeId)
    {machine : Machine} (offers : machine.context.Offers region id value) :
    (tried (evaluator.evaluateWithin budget) machine first).context.Offers region id value ∧
      (id = first ∨ machine.context.value? id = some value →
        (tried (evaluator.evaluateWithin budget) machine first).context.value? id = some value) := by
  have along := Evaluator.along_evaluateWithin evaluator offers.data offers.idle budget first
  have offersAfter := Evaluator.offers_evaluateWithin evaluator offers budget first
  have kept := along.1.kept id offers.mem value
  have given := Evaluator.evaluateWithin_of_offers evaluator offers enough
  cases ran : evaluator.evaluateWithin budget first machine with
  | mk outcome after =>
    rw [ran] at offersAfter kept
    cases outcome with
    | error error =>
      rw [tried_error ran]
      refine ⟨offers_fail enough offers ran, ?_⟩
      rintro (rfl | known)
      · rw [ran] at given
        cases given
      · exact kept known
    | ok other =>
      rw [tried_ok ran]
      refine ⟨offersAfter, ?_⟩
      rintro (rfl | known)
      · rw [ran] at given
        cases given
        exact Evaluator.value?_of_evaluateWithin ran
      · exact kept known

theorem foldl_tried_offers (enough : region.length ≤ budget) (ids : List NodeId)
    {machine : Machine} (offers : machine.context.Offers region id value) :
    (ids.foldl (tried (evaluator.evaluateWithin budget)) machine).context.Offers region id value ∧
      (id ∈ ids ∨ machine.context.value? id = some value →
        (ids.foldl (tried (evaluator.evaluateWithin budget)) machine).context.value? id =
          some value) := by
  induction ids generalizing machine with
  | nil => exact ⟨offers, fun known => known.resolve_left List.not_mem_nil⟩
  | cons first ids ih =>
    obtain ⟨offersMiddle, knownMiddle⟩ := tried_offers evaluator enough first offers
    obtain ⟨offersAfter, known⟩ := ih offersMiddle
    refine ⟨offersAfter, fun here => known ?_⟩
    rw [List.mem_cons, or_right_comm] at here
    exact here.symm.imp_right knownMiddle

/-- A variable that is settled keeps the value that was offered for it; whatever else is settled,
the value is still offered. -/
theorem settle_offers (enough : region.length ≤ budget) (affected pending : List NodeId)
    {machine : Machine} (offers : machine.context.Offers region id value) :
    ∃ after, settle plan (evaluator.evaluateWithin budget) affected pending machine =
        (.ok (plan.unsettled affected pending), after) ∧
      after.context.Offers region id value ∧
      (id ∈ plan.settled affected pending ∨ machine.context.value? id = some value →
        after.context.value? id = some value) :=
  ⟨_, settle_eq affected pending machine,
    foldl_tried_offers enough (plan.settled affected pending) offers⟩

end Statement

/-- Only some declarations were assigned. -/
def Context.AssignsIn (targets : NodeId → Prop) (context : Context) : Prop :=
  ∀ target ∈ context.rebound, targets target

/-- Evaluation assigns nothing. -/
theorem Evaluator.invariant_assignsIn (evaluator : Evaluator) (targets : NodeId → Prop) :
    evaluator.Invariant (Context.AssignsIn targets) fun _ => True where
  copies _ _ _ mem := absurd mem Std.TreeSet.not_mem_emptyc
  progresses _ _ assigns := assigns
  adds _ _ _ _ _ _ _ assigns := assigns
  makes _ _ _ _ _ _ _ _ _ _ _ _ _ := trivial
  runs _ _ _ _ _ := Eval.within_keeps fun _ _ _ _ => trivial

namespace Statement

/-- The declarations that a statement may assign; a loop also counts what is assigned in functions
that are declared in it. -/
inductive Assigns (plan : Plan) (targets : NodeId → Prop) : Node → Prop
  | branch {id : NodeId} {condition : Node} {block : List Node}
    (inside : ∀ statement ∈ block, Assigns plan targets statement) :
    Assigns plan targets (.mk id (.branch condition block))
  | loop {id : NodeId} {condition : Node} {block : List Node}
    (subtree : ∀ target ∈ (plan.subtree id).filterMap plan.target?, targets target)
    (inside : ∀ statement ∈ block, ∀ place ∈ statement.identities, place ∈ plan.subtree id) :
    Assigns plan targets (.mk id (.loop condition block))
  | other {node : Node}
    (simple : ∀ condition block, node.kind ≠ .branch condition block ∧
      node.kind ≠ .loop condition block)
    (assigned : ∀ expression target value declaration,
      node.kind = .expressionStatement expression → expression.kind = .assignment target value →
        plan.target? expression.id = some declaration → targets declaration) :
    Assigns plan targets node

/-- Statements of a function assign what is planned for places below them. -/
theorem assigns_of_identities {root : Node} (distinct : root.Distinct) {scope : Scope}
    {targets : NodeId → Prop} {function statement : Node}
    (place : (some function, statement) ∈ reached none root)
    (planned : ∀ place ∈ statement.identities, ∀ target,
      (Plan.build root scope).target? place = some target → targets target) :
    Assigns (Plan.build root scope) targets statement := by
  induction statement using Node.children_induction with
  | step statement ih =>
    have below {child : Node} (mem : child ∈ statement.children) (id : NodeId)
        (inside : id ∈ child.identities) : id ∈ statement.identities := by
      rw [Node.identities_eq]
      exact List.mem_cons_of_mem _ (List.mem_flatMap.2 ⟨child, mem, inside⟩)
    obtain ⟨id, kind⟩ := statement
    cases kind with
    | branch condition block =>
      refine .branch fun statement mem => ?_
      have mem : statement ∈ condition :: block := List.mem_cons_of_mem _ mem
      exact ih statement mem (reached_child place rfl rfl mem) fun place inside =>
        planned place (below mem place inside)
    | loop condition block =>
      have subtree := Plan.subtree_loop distinct scope place
      refine .loop (fun target mem => ?_) fun statement mem place inside => ?_
      · obtain ⟨place, inside, found⟩ := List.mem_filterMap.1 mem
        rw [subtree] at inside
        obtain ⟨child, mem, here⟩ := List.mem_flatMap.1 inside
        exact planned place (below mem place here) target found
      · rw [subtree]
        exact List.mem_flatMap.2 ⟨statement, List.mem_cons_of_mem _ mem, inside⟩
    | expressionStatement expression =>
      refine .other (fun _ _ => ⟨nofun, nofun⟩) fun expression _ _ declaration same _ found => ?_
      cases same
      exact planned expression.id (below List.mem_cons_self _
        (Node.id_mem_identities expression.self_mem_preorder)) declaration found
    | _ => exact .other (fun _ _ => ⟨nofun, nofun⟩) nofun

theorem allows_assignsIn {plan : Plan} {places targets : NodeId → Prop}
    (planned : ∀ place target, places place → plan.target? place = some target → targets target)
    {closures : Array Closure → Prop} {evaluate : NodeId → Eval Value}
    (evaluates : ∀ id, Keeps (Machine.Has (Context.AssignsIn targets) closures) (evaluate id)) :
    Allows plan (Context.AssignsIn targets) closures evaluate (fun _ => True) (fun _ => True)
      places where
  evaluates id _ := evaluates id
  pending _ _ := trivial
  fails _ _ _ _ assigns := assigns
  assigns place target value context inside found assigns other mem := by
    rcases (Context.mem_rebound_rebind target value other).1 mem with rfl | before
    · exact planned place other inside found
    · exact assigns other before
  turns _ _ _ _ mem := absurd mem Std.TreeSet.not_mem_emptyc
  adopts _ turn assigns other target mem := by
    rcases (Context.mem_rebound_adopt turn target).1 mem with before | ⟨now, -⟩
    · exact assigns target before
    · exact other target now

section Turns

variable {plan : Plan} {limits : Limits} (evaluator : Evaluator) {budget : Nat}

theorem condition_assignsIn {targets : NodeId → Prop} (condition : Node) :
    Keeps (Machine.All (Context.AssignsIn targets) fun _ => True)
      (do Eval.condition (← evaluator.evaluateWithin budget condition.id)) :=
  ((evaluator.invariant_assignsIn targets).evaluateWithin budget condition.id).bind
    fun test _ => Eval.condition_keeps test

/-- The body of a loop assigns what is planned for places below the loop. -/
theorem body_assignsIn {loop : NodeId} {block : List Node}
    (inside : ∀ statement ∈ block, ∀ place ∈ statement.identities, place ∈ plan.subtree loop) :
    Keeps (Machine.All
        (Context.AssignsIn (· ∈ (plan.subtree loop).filterMap plan.target?)) fun _ => True)
      (executeBlock plan limits (evaluator.evaluateWithin budget) block []) := by
  have nothing : ∀ other ∈ ([] : List NodeId), True := fun _ _ => trivial
  have planned (place target : NodeId) (mem : place ∈ plan.subtree loop)
      (found : plan.target? place = some target) :
      target ∈ (plan.subtree loop).filterMap plan.target? :=
    List.mem_filterMap.2 ⟨place, mem, found⟩
  exact (executeBlock_ensures
    (allows_assignsIn planned ((evaluator.invariant_assignsIn _).evaluateWithin budget))
    (fun statement mem => runs_of_identities (inside statement mem)) nothing).toKeeps

end Turns

section Loops

variable {limits : Limits} {region : List NodeId} {id : NodeId} {value : Value}

/-- A loop that only assigns other declarations goes on to offer a value. -/
theorem repeatLoop_offers {targets : NodeId → Prop} (others : ∀ target, targets target →
      target ∉ region) (subtree : List NodeId) {condition : Eval Bool} {body : Eval Flow}
    (tests : Keeps (Machine.All (Context.AssignsIn targets) fun _ => True) condition)
    (runs : Keeps (Machine.All (Context.AssignsIn targets) fun _ => True) body) (turns : Nat) :
    Keeps (Machine.Has (Context.Offers region id value) fun _ => True)
      (repeatLoop limits subtree condition body turns) := by
  have opens : Ensures (Machine.Has (Context.Offers region id value) fun _ => True)
      (openTurn subtree condition) fun opened => opened.2.AssignsIn targets := by
    refine Eval.ensures_context.bind fun context _ => Eval.ensures_within fun session _ =>
      ⟨trivial, fun _ _ => ?_⟩
    exact (tests ⟨context.copy.forget subtree, session⟩
      ⟨fun _ mem => absurd mem Std.TreeSet.not_mem_emptyc, fun _ _ => trivial⟩).1.1
  induction turns with
  | zero =>
    rw [repeatLoop]
    refine opens.bind fun opened _ => ?_
    dsimp only
    split
    · exact Step.ensures_throw _
    · exact Step.ensures_pure trivial
  | succ turns ih =>
    rw [repeatLoop]
    refine opens.bind fun opened assigns => ?_
    dsimp only
    split
    · have ends : Ensures (Machine.Has (Context.Offers region id value) fun _ => True)
          (Eval.within opened.2 body) fun ended => ended.2.AssignsIn targets :=
        Eval.ensures_within fun session _ => ⟨trivial, fun _ _ =>
          (runs ⟨opened.2, session⟩ ⟨assigns, fun _ _ => trivial⟩).1.1⟩
      refine ends.bind fun ended assigned => ?_
      split
      · exact Step.ensures_pure trivial
      · exact (Eval.change_keeps fun context offers => offers.adopt fun target mem =>
          others target (assigned target mem)).bind fun _ _ => ih
    · exact Step.ensures_pure trivial

end Loops

end Statement

namespace Context

/-- The context offers a value from so few nodes that their evaluations may all be nested. -/
def Holds (budget : Nat) (id : NodeId) (value : Value) (context : Context) : Prop :=
  ∃ region, region.length ≤ budget ∧ context.Offers region id value

/-- The context offers the value of a pending variable from some nodes of `whole`, of which none is
assigned before the variable is settled. -/
def Guards (plan : Plan) (targets : NodeId → Prop) (whole : List NodeId) (budget : Nat)
    (id : NodeId) (value : Value) (pending : List NodeId) (context : Context) : Prop :=
  ∃ region ⊆ whole, region.length ≤ budget ∧ context.Offers region id value ∧
    ∀ target, targets target → target ∈ region → id ∈ plan.settled [target] pending

variable {plan : Plan} {targets : NodeId → Prop} {whole : List NodeId} {budget : Nat}
  {id : NodeId} {value : Value} {pending : List NodeId} {context : Context}

theorem Guards.holds (guards : context.Guards plan targets whole budget id value pending) :
    context.Holds budget id value :=
  have ⟨region, _, enough, offers, _⟩ := guards
  ⟨region, enough, offers⟩

/-- More variables may be left pending. -/
theorem Guards.append (guards : context.Guards plan targets whole budget id value pending)
    (later : List NodeId) : context.Guards plan targets whole budget id value (pending ++ later) :=
  have ⟨region, subset, enough, offers, covered⟩ := guards
  ⟨region, subset, enough, offers, fun target assigned mem =>
    Plan.settled_subset_append later (covered target assigned mem)⟩

end Context

namespace Statement

section Guards

variable {plan : Plan} {limits : Limits} {evaluator : Evaluator} {targets : NodeId → Prop}
  {whole : List NodeId} {budget : Nat} {id : NodeId} {value : Value}

/-- Where a context has some property, the step goes on to guard the value for the variables that
it leaves pending; even if it fails or returns, the context holds the value. -/
def Ends (plan : Plan) (targets : NodeId → Prop) (whole : List NodeId) (budget : Nat) (id : NodeId)
    (value : Value) (before : Context → Prop) (step : Eval Flow) : Prop :=
  ∀ machine : Machine, before machine.context →
    (step machine).2.context.Holds budget id value ∧
      ∀ rest, (step machine).1 = .ok (.next rest) →
        (step machine).2.context.Guards plan targets whole budget id value rest

section

variable {before : Context → Prop}
  (holds : ∀ context, before context → context.Holds budget id value)

include holds

theorem ends_throw (error : EvalError) :
    Ends plan targets whole budget id value before (throw error) :=
  fun _ has => ⟨holds _ has, nofun⟩

theorem ends_returned (result : Value) :
    Ends plan targets whole budget id value before (pure (.returned result)) :=
  fun _ has => ⟨holds _ has, nofun⟩

theorem ends_next {rest : List NodeId}
    (guards : ∀ context, before context → context.Guards plan targets whole budget id value rest) :
    Ends plan targets whole budget id value before (pure (.next rest)) :=
  fun _ has => ⟨holds _ has, fun _ same => by cases same; exact guards _ has⟩

/-- First a step that keeps the property. -/
theorem Ends.after {α : Type} {step : Eval α} {next : α → Eval Flow}
    (first : Keeps (Machine.Has before fun _ => True) step)
    (rest : ∀ a, Ends plan targets whole budget id value before (next a)) :
    Ends plan targets whole budget id value before (step >>= next) := by
  intro machine has
  have kept := (first machine ⟨has, trivial⟩).1.1
  cases ran : step machine with
  | mk outcome after =>
    rw [ran] at kept
    cases outcome with
    | error error =>
      rw [Step.bind_error ran]
      exact ⟨holds _ kept, nofun⟩
    | ok a =>
      rw [Step.bind_ok ran]
      exact rest a after kept

end

theorem evaluateWithin_offers (evaluator : Evaluator) (region : List NodeId) (node : NodeId) :
    Keeps (Machine.Has (Context.Offers region id value) fun _ => True)
      (evaluator.evaluateWithin budget node) :=
  fun _ has => ⟨⟨Evaluator.offers_evaluateWithin evaluator has.1 budget node, trivial⟩,
    fun _ _ => trivial⟩

theorem evaluateWithin_guards (evaluator : Evaluator) (pending : List NodeId) (node : NodeId) :
    Keeps (Machine.Has (Context.Guards plan targets whole budget id value pending) fun _ => True)
      (evaluator.evaluateWithin budget node) := by
  rintro machine ⟨⟨region, subset, enough, offers, covered⟩, -⟩
  exact ⟨⟨⟨region, subset, enough, Evaluator.offers_evaluateWithin evaluator offers budget node,
    covered⟩, trivial⟩, fun _ _ => trivial⟩

variable (others : ∀ target, targets target → target ≠ id)

include others

/-- After settling, the value is guarded by nodes that are not affected. -/
theorem settle_guards {affected : List NodeId} (assigned : ∀ target ∈ affected, targets target)
    (pending : List NodeId) {machine : Machine}
    (guards : machine.context.Guards plan targets whole budget id value pending) :
    ∃ rest after region,
      settle plan (evaluator.evaluateWithin budget) affected pending machine = (.ok rest, after) ∧
      region ⊆ whole ∧ region.length ≤ budget ∧ (∀ target ∈ affected, target ∉ region) ∧
      (∀ target, targets target → target ∈ region → id ∈ plan.settled [target] rest) ∧
      after.context.Offers region id value := by
  obtain ⟨region, subset, enough, offers, covered⟩ := guards
  obtain ⟨after, settled, offersAfter, known⟩ := settle_offers enough affected pending offers
  by_cases here : id ∈ plan.settled affected pending
  · have alone (target : NodeId) (is : targets target) : target ∉ [id] :=
      fun mem => others target is (List.mem_singleton.1 mem)
    exact ⟨_, after, [id], settled, List.cons_subset.2 ⟨subset offers.mem, List.nil_subset _⟩,
      Nat.le_trans (List.length_pos_of_mem offers.mem) enough,
      fun target mem => alone target (assigned target mem),
      fun target is mem => absurd mem (alone target is), offersAfter.alone (known (.inl here))⟩
  · refine ⟨_, after, region, settled, subset, enough, fun target mem inside => here ?_,
      fun target is inside => ?_, offersAfter⟩
    · have only : [target] ⊆ affected := List.cons_subset.2 ⟨mem, List.nil_subset _⟩
      exact Plan.settled_subset only (covered target (assigned target mem) inside)
    · exact (Plan.settled_or_settled_unsettled (covered target is inside)).resolve_left here

theorem Ends.settle {affected : List NodeId} (assigned : ∀ target ∈ affected, targets target)
    (pending : List NodeId) {next : List NodeId → Eval Flow}
    (rest : ∀ rest region, region ⊆ whole → region.length ≤ budget →
      (∀ target ∈ affected, target ∉ region) →
      (∀ target, targets target → target ∈ region → id ∈ plan.settled [target] rest) →
        Ends plan targets whole budget id value (Context.Offers region id value) (next rest)) :
    Ends plan targets whole budget id value
      (Context.Guards plan targets whole budget id value pending)
      (Statement.settle plan (evaluator.evaluateWithin budget) affected pending >>= next) := by
  intro machine guards
  obtain ⟨left, after, region, settled, subset, enough, apart, covered, offers⟩ :=
    settle_guards others assigned pending guards
  rw [Step.bind_ok settled]
  exact rest left region subset enough apart covered after offers

theorem executeExpression_ends {expression : Node}
    (assigned : ∀ target value declaration, expression.kind = .assignment target value →
      plan.target? expression.id = some declaration → targets declaration)
    (pending : List NodeId) :
    Ends plan targets whole budget id value (Context.Guards plan targets whole budget id value pending)
      (executeExpression plan (evaluator.evaluateWithin budget) expression pending) := by
  have guarded (context : Context)
      (guards : context.Guards plan targets whole budget id value pending) := guards.holds
  unfold executeExpression
  split
  · rename_i target new same
    split
    · exact ends_throw guarded _
    · rename_i declaration planned
      have is (other : NodeId) (mem : other ∈ [declaration]) : targets other :=
        List.mem_singleton.1 mem ▸ assigned target new declaration same planned
      refine Ends.settle others is pending fun rest region subset enough apart covered => ?_
      have holds (context : Context) (offers : context.Offers region id value) :
          context.Holds budget id value := ⟨region, enough, offers⟩
      refine Ends.after holds (evaluateWithin_offers evaluator region new.id) fun result => ?_
      refine Ends.after holds (Eval.change_keeps fun context offers =>
        offers.rebind (apart declaration List.mem_cons_self) result) fun _ => ?_
      exact ends_next holds fun context offers => ⟨region, subset, enough, offers, covered⟩
  · exact Ends.after guarded (evaluateWithin_guards evaluator pending expression.id) fun _ =>
      ends_next guarded fun _ guards => guards

omit others in
theorem executeBlock_ends_of {statements : List Node}
    (each : ∀ statement ∈ statements, ∀ pending,
      Ends plan targets whole budget id value (Context.Guards plan targets whole budget id value pending)
        (execute plan limits (evaluator.evaluateWithin budget) statement pending))
    (pending : List NodeId) :
    Ends plan targets whole budget id value (Context.Guards plan targets whole budget id value pending)
      (executeBlock plan limits (evaluator.evaluateWithin budget) statements pending) := by
  induction statements generalizing pending with
  | nil =>
    rw [executeBlock]
    exact ends_next (fun _ guards => guards.holds) fun _ guards => guards
  | cons statement statements ih =>
    intro machine guards
    obtain ⟨holds, goesOn⟩ := each statement List.mem_cons_self pending machine guards
    rw [executeBlock_cons]
    cases ran : execute plan limits (evaluator.evaluateWithin budget) statement pending machine with
    | mk outcome after =>
      rw [ran] at holds goesOn
      cases outcome with
      | error error =>
        rw [Step.bind_error ran]
        exact ⟨holds, fun _ same => by cases same⟩
      | ok flow =>
        rw [Step.bind_ok ran]
        cases flow with
        | returned result => exact ⟨holds, fun _ same => by cases same⟩
        | next rest =>
          exact ih (fun other mem => each other (List.mem_cons_of_mem _ mem)) rest after
            (goesOn rest rfl)

theorem execute_ends {statement : Node} (assigns : Assigns plan targets statement)
    (pending : List NodeId) :
    Ends plan targets whole budget id value (Context.Guards plan targets whole budget id value pending)
      (execute plan limits (evaluator.evaluateWithin budget) statement pending) := by
  have guarded (pending : List NodeId) (context : Context)
      (guards : context.Guards plan targets whole budget id value pending) := guards.holds
  induction assigns generalizing pending with
  | branch inside ih =>
    rw [execute_branch]
    refine Ends.after (guarded pending) (evaluateWithin_guards evaluator pending _) fun test => ?_
    refine Ends.after (guarded pending) (Eval.condition_keeps test) fun holds => ?_
    split
    · exact executeBlock_ends_of ih pending
    · exact ends_next (guarded pending) fun _ guards => guards
  | @loop loop condition block subtree inside =>
    rw [execute_loop]
    refine Ends.settle others subtree pending fun rest region subset enough apart covered => ?_
    have holds (context : Context) (offers : context.Offers region id value) :
        context.Holds budget id value := ⟨region, enough, offers⟩
    refine Ends.after holds (repeatLoop_offers apart _ (condition_assignsIn evaluator condition)
      (body_assignsIn evaluator inside) _) fun outcome => ?_
    cases outcome with
    | none => exact ends_next holds fun context offers => ⟨region, subset, enough, offers, covered⟩
    | some result => exact ends_returned holds result
  | @other node simple assigned =>
    obtain ⟨self, kind⟩ := node
    cases kind with
    | branch condition block => exact absurd rfl (simple condition block).1
    | loop condition block => exact absurd rfl (simple condition block).2
    | returnStatement expression? =>
      rw [execute]
      dsimp only [Node.kind_mk]
      cases expression? with
      | none => exact ends_returned (guarded pending) _
      | some expression =>
        exact Ends.after (guarded pending) (evaluateWithin_guards evaluator pending _)
          fun result => ends_returned (guarded pending) result
    | expressionStatement expression =>
      rw [execute_expressionStatement]
      exact executeExpression_ends others
        (fun target new declaration => assigned expression target new declaration rfl) pending
    | variableDecl name type? initializer? =>
      rw [execute]
      dsimp only [Node.kind_mk]
      cases initializer? with
      | none => exact ends_next (guarded pending) fun _ guards => guards
      | some initializer => exact ends_next (guarded pending) fun _ guards => guards.append _
    | _ =>
      rw [execute]
      exact ends_next (guarded pending) fun _ guards => guards

/-- Statements go on to guard the value of a variable that they do not assign. -/
theorem executeBlock_ends {statements : List Node}
    (assigns : ∀ statement ∈ statements, Assigns plan targets statement) (pending : List NodeId) :
    Ends plan targets whole budget id value (Context.Guards plan targets whole budget id value pending)
      (executeBlock plan limits (evaluator.evaluateWithin budget) statements pending) :=
  executeBlock_ends_of (fun statement mem => execute_ends others (assigns statement mem)) pending

end Guards

end Statement

end DeclLang
