import DeclLang.Proofs.KeptVariables
import DeclLang.Proofs.RestoredContexts

/-!
# Settling settles what reaches a target

**Input.**  A plan, declarations about to be assigned, and pending variables of which none reads a
later one.

**Rule.**  A pending variable reaches a target if its initializer reads the target, or reads another
pending variable that reaches it (`Plan.Reaches`).

**Algorithm.**  `Statement.settle` goes through the list once.  A variable that reads something
affected is tried and is itself affected from then on (`Plan.settled`); a failure is kept for
whoever reads the variable (`Statement.tried`).

**Results.**
* `Plan.settled_eq_filter`: one pass finds exactly the variables that reach a target.
* `Evaluator.withholds_foldl_tried`: a failure that was kept stays, whatever is tried afterwards.
* `Statement.settle_reaching`: exactly those variables are tried, in order, the others stay pending,
  and every failure comes up when the variable is read.
-/

namespace DeclLang

open Step (Keeps)

namespace Plan

variable (plan : Plan)

/-- A variable reads a target, directly or by way of pending variables. -/
inductive Reaches (targets pending : List NodeId) : NodeId → Prop
  | reads {id target : NodeId} (read : target ∈ plan.readsOf id) (mem : target ∈ targets) :
    Reaches targets pending id
  | through {id other : NodeId} (read : other ∈ plan.readsOf id) (mem : other ∈ pending)
    (reaches : Reaches targets pending other) : Reaches targets pending id

/-- No variable reads a later one. -/
def Ordered (pending : List NodeId) : Prop :=
  pending.Pairwise fun earlier later => later ∉ plan.readsOf earlier

instance (pending : List NodeId) : Decidable (plan.Ordered pending) :=
  inferInstanceAs (Decidable (pending.Pairwise _))

variable {plan} {targets pending : List NodeId} {first id : NodeId}

theorem reaches_of_readsAny (reads : plan.ReadsAny targets id) :
    plan.Reaches targets pending id :=
  have ⟨_, read, mem⟩ := reads
  .reads read mem

/-- A variable that reads a target may count as a target itself. -/
theorem reaches_affected_iff (reads : plan.ReadsAny targets first) :
    plan.Reaches (first :: targets) pending id ↔ plan.Reaches targets (first :: pending) id := by
  constructor
  · intro reaches
    induction reaches with
    | reads read mem =>
      rcases List.mem_cons.1 mem with rfl | mem
      · exact .through read List.mem_cons_self (reaches_of_readsAny reads)
      · exact .reads read mem
    | through read mem _ ih => exact .through read (List.mem_cons_of_mem _ mem) ih
  · intro reaches
    induction reaches with
    | reads read mem => exact .reads read (List.mem_cons_of_mem _ mem)
    | through read mem _ ih =>
      rcases List.mem_cons.1 mem with rfl | mem
      · exact .reads read List.mem_cons_self
      · exact .through read mem ih

/-- A variable that reads neither a target nor a later variable reaches nothing, and nothing is
reached by way of it. -/
theorem Reaches.of_cons (other : ¬plan.ReadsAny targets first)
    (apart : ∀ later ∈ pending, later ∉ plan.readsOf first)
    (reaches : plan.Reaches targets (first :: pending) id) :
    id ≠ first ∧ plan.Reaches targets pending id := by
  induction reaches with
  | reads read mem =>
    refine ⟨?_, .reads read mem⟩
    rintro rfl
    exact other ⟨_, read, mem⟩
  | through read mem _ ih =>
    obtain ⟨different, reaches⟩ := ih
    have later := (List.mem_cons.1 mem).resolve_left different
    refine ⟨?_, .through read later reaches⟩
    rintro rfl
    exact apart _ later read

theorem Reaches.cons (reaches : plan.Reaches targets pending id) :
    plan.Reaches targets (first :: pending) id := by
  induction reaches with
  | reads read mem => exact .reads read mem
  | through read mem _ ih => exact .through read (List.mem_cons_of_mem _ mem) ih

open Classical in
/-- One pass over a list in which no variable reads a later one finds exactly the variables that
reach a target, and leaves the others. -/
theorem settled_eq_filter (targets : List NodeId) (ordered : plan.Ordered pending) :
    plan.settled targets pending = pending.filter (plan.Reaches targets pending ·) ∧
      plan.unsettled targets pending = pending.filter (¬plan.Reaches targets pending ·) := by
  induction pending generalizing targets with
  | nil => exact ⟨rfl, rfl⟩
  | cons first pending ih =>
    obtain ⟨apart, ordered⟩ := List.pairwise_cons.1 ordered
    -- What the first variable reads decides about it at once, because it reads nothing behind it.
    by_cases reads : plan.ReadsAny targets first
    · have found : plan.Reaches targets (first :: pending) first := reaches_of_readsAny reads
      obtain ⟨settled, unsettled⟩ := ih (first :: targets) ordered
      rw [settled_cons_of_reads reads, unsettled_cons_of_reads reads,
        List.filter_cons_of_pos (by simpa using found),
        List.filter_cons_of_neg (by simpa using found), settled, unsettled]
      simp only [reaches_affected_iff reads, and_self]
    · have missed : ¬plan.Reaches targets (first :: pending) first :=
        fun reaches => (reaches.of_cons reads apart).1 rfl
      have same (id : NodeId) : plan.Reaches targets (first :: pending) id ↔
          plan.Reaches targets pending id :=
        ⟨fun reaches => (reaches.of_cons reads apart).2, Reaches.cons⟩
      obtain ⟨settled, unsettled⟩ := ih targets ordered
      rw [settled_cons_of_not_reads reads, unsettled_cons_of_not_reads reads,
        List.filter_cons_of_neg (by simpa using missed),
        List.filter_cons_of_pos (by simpa using missed), settled, unsettled]
      simp only [same, and_self]

end Plan

namespace Context

/-- A node has no value, and gets none: it is being evaluated, or its evaluation has failed. -/
structure Barren (id : NodeId) (context : Context) : Prop where
  unknown : context.value? id = none
  barred : id ∈ context.inProgress ∨ ∃ error, context.thunk? id = some (.failed error)

/-- A node has no value, but the failure with which its evaluation ended. -/
structure Withholds (id : NodeId) (error : EvalError) (context : Context) : Prop where
  unknown : context.value? id = none
  recipe : context.thunk? id = some (.failed error)

theorem Withholds.barren {id : NodeId} {error : EvalError} {context : Context}
    (withholds : context.Withholds id error) : context.Barren id :=
  ⟨withholds.unknown, .inr ⟨error, withholds.recipe⟩⟩

end Context

namespace Evaluator

variable {evaluator : Evaluator} {budget : Nat} {id : NodeId} {machine : Machine}
  {error : EvalError}

/-- Evaluations come back to the level on which they began. -/
theorem depth_evaluateWithin (evaluator : Evaluator) (budget : Nat) (id : NodeId)
    (machine : Machine) :
    (evaluator.evaluateWithin budget id machine).2.session.depth = machine.session.depth := by
  rcases evaluator.evaluateWithin_cases budget id machine with
    nothing | ⟨less, thunk, -, -, -, -, ran⟩
  · rw [nothing]
  · rw [ran, nested_eq]
    split <;> rfl

/-- Only a node without a value fails. -/
theorem unknown_of_evaluateWithin
    (failed : (evaluator.evaluateWithin budget id machine).1 = .error error) :
    machine.context.value? id = none := by
  cases known : machine.context.value? id with
  | none => rfl
  | some value =>
    have found (run : Thunk → Eval Value) : (lookup run id machine).1 = .ok value :=
      congrArg Prod.fst (lookup_value known)
    cases budget <;> cases (found _).symm.trans failed

/-- What a node gives of which the failure is known: that failure, unless it is needed for itself or
nothing may be evaluated any more. -/
def refusal (evaluator : Evaluator) (budget : Nat) (id : NodeId) (error : EvalError)
    (machine : Machine) : EvalError :=
  if id ∈ machine.context.inProgress then .cycle id
  else match budget with
    | 0 => .depthExceeded (machine.session.depth + 1) evaluator.limits.depth
    | _ + 1 => error

theorem evaluateWithin_of_withholds (evaluator : Evaluator) (budget : Nat)
    (withholds : machine.context.Withholds id error) :
    (evaluator.evaluateWithin budget id machine).1 =
      .error (evaluator.refusal budget id error machine) := by
  obtain ⟨unknown, found⟩ := withholds
  unfold refusal
  by_cases busy : id ∈ machine.context.inProgress
  · rw [if_pos busy]
    cases budget <;> exact congrArg Prod.fst (lookup_cycle unknown found busy)
  · rw [if_neg busy]
    cases budget with
    | zero => exact congrArg Prod.fst (lookup_run unknown found busy)
    | succ less =>
      have ran : evaluator.evaluateWithin (less + 1) id machine = nested id (do
          let values ← (Thunk.failed error).dependencies.mapM (evaluator.evaluateWithin less)
          Call.follow evaluator.plan evaluator.limits (evaluator.evaluateWithin less) id
            (Thunk.failed error).recipe values) machine :=
        lookup_run unknown found busy
      rw [ran, nested_eq]
      rfl

/-- A node that is being evaluated or has failed gets no value from any evaluation. -/
theorem evaluateWithin_barren (evaluator : Evaluator) (id : NodeId) (budget : Nat)
    (other : NodeId) : Keeps (Machine.Has (Context.Barren id) fun _ => True)
      (evaluator.evaluateWithin budget other) := by
  induction budget generalizing other with
  | zero =>
    exact lookup_keeps fun _ _ _ _ => Step.ensures_get.bind fun _ _ => Step.ensures_throw _
  | succ budget ih =>
    by_cases same : other = id
    · subst same
      intro machine ⟨barren, _⟩
      refine ⟨⟨?_, trivial⟩, fun _ _ => trivial⟩
      rcases evaluator.evaluateWithin_cases (budget + 1) other machine with
        nothing | ⟨less, thunk, -, unknown, found, idle, ran⟩
      · rwa [nothing]
      · obtain ⟨error, failed⟩ := barren.barred.resolve_left idle
        cases found.symm.trans failed
        rw [ran, nested_eq]
        exact ⟨unknown, .inr ⟨error, failed⟩⟩
    · have progresses (context : Context) (inProgress : Std.TreeSet NodeId)
          (around : ∀ node, node ≠ other → (node ∈ inProgress ↔ node ∈ context.inProgress))
          (barren : context.Barren id) : Context.Barren id { context with inProgress } :=
        ⟨barren.unknown, barren.barred.imp_left (around id (Ne.symm same)).2⟩
      have adds (context : Context) (value : Value) (barren : context.Barren id) :
          (context.addValue other value).Barren id := by
        refine ⟨?_, barren.barred⟩
        rw [Context.value?_addValue, if_neg (Ne.symm same)]
        exact barren.unknown
      exact lookup_keeps fun _ thunk _ _ =>
        nested_keeps progresses adds (Call.follow_keeps ih other thunk)

/-- A node whose evaluation fails has no value afterwards. -/
theorem unknown_after_evaluateWithin
    (failed : (evaluator.evaluateWithin budget id machine).1 = .error error) :
    (evaluator.evaluateWithin budget id machine).2.context.value? id = none := by
  have unknown := unknown_of_evaluateWithin failed
  rcases evaluator.evaluateWithin_cases budget id machine with
    nothing | ⟨less, thunk, -, -, -, idle, ran⟩
  · rwa [nothing]
  · rw [ran, nested_eq] at failed ⊢
    have follows : Keeps (Machine.Has (Context.Barren id) fun _ => True) (do
        let values ← thunk.dependencies.mapM (evaluator.evaluateWithin less)
        Call.follow evaluator.plan evaluator.limits (evaluator.evaluateWithin less) id
          thunk.recipe values) :=
      Call.follow_keeps (evaluator.evaluateWithin_barren id less) id thunk
    -- While its recipe is followed, the node is in progress.
    have inner := (follows
      ⟨{ machine.context with inProgress := machine.context.inProgress.insert id },
        { machine.session with depth := machine.session.depth + 1 }⟩
      ⟨⟨unknown, .inl Std.TreeSet.mem_insert_self⟩, trivial⟩).1.1.unknown
    split
    · rename_i ended
      rw [ended] at failed
      cases failed
    · rename_i ended
      rw [ended] at inner
      exact inner

end Evaluator

/-- What trying a variable leaves as it was: the level, the nodes in progress, the recipes of all
other nodes, and that there is a recipe. -/
structure Machine.Resumes (id : NodeId) (before after : Machine) : Prop where
  depth : after.session.depth = before.session.depth
  inProgress : ∀ node, node ∈ after.context.inProgress ↔ node ∈ before.context.inProgress
  others : ∀ node, node ≠ id → after.context.thunk? node = before.context.thunk? node
  recipes : ∀ node, (before.context.thunk? node).isSome → (after.context.thunk? node).isSome

namespace Evaluator

open Statement (tried tried_ok tried_error value?_tried)

variable {evaluator : Evaluator} {budget : Nat} {machine : Machine} {id other : NodeId}
  {error : EvalError}

theorem tried_resumes (evaluator : Evaluator) (budget : Nat) (machine : Machine) (id : NodeId) :
    machine.Resumes id (tried (evaluator.evaluateWithin budget) machine id) := by
  have restored := (evaluator.evaluateWithin_restores budget id).here machine
  have depth := evaluator.depth_evaluateWithin budget id machine
  cases ran : evaluator.evaluateWithin budget id machine with
  | mk outcome after =>
    rw [ran] at restored depth
    have same (node : NodeId) : after.context.thunk? node = machine.context.thunk? node := by
      unfold Context.thunk?
      rw [restored.thunks]
    cases outcome with
    | ok value =>
      rw [tried_ok ran]
      exact ⟨depth, restored.inProgress, fun node _ => same node,
        fun node known => (same node).symm ▸ known⟩
    | error error =>
      rw [tried_error ran]
      refine ⟨depth, restored.inProgress, fun node different => ?_, fun node known => ?_⟩
      · rw [Context.thunk?_addThunk, if_neg different, same node]
      · rw [Context.thunk?_addThunk]
        split
        · rfl
        · rwa [same node]

/-- A failure is kept of a variable that was tried in vain. -/
theorem withholds_of_failed
    (failed : (evaluator.evaluateWithin budget id machine).1 = .error error) :
    (tried (evaluator.evaluateWithin budget) machine id).context.Withholds id error := by
  refine ⟨value?_tried.trans (unknown_after_evaluateWithin failed), ?_⟩
  rw [tried_error (Prod.ext failed rfl), Context.thunk?_addThunk, if_pos rfl]

/-- A node with a recipe that fails is refused with that failure from now on. -/
theorem refusal_of_failed
    (failed : (evaluator.evaluateWithin budget id machine).1 = .error error)
    (recipe : (machine.context.thunk? id).isSome) :
    evaluator.refusal budget id error machine = error := by
  have unknown := unknown_of_evaluateWithin failed
  obtain ⟨thunk, found⟩ := Option.isSome_iff_exists.1 recipe
  unfold refusal
  by_cases busy : id ∈ machine.context.inProgress
  · rw [if_pos busy]
    have cyclic (run : Thunk → Eval Value) : (lookup run id machine).1 = .error (.cycle id) :=
      congrArg Prod.fst (lookup_cycle unknown found busy)
    cases budget <;> exact Except.error.inj ((cyclic _).symm.trans failed)
  · rw [if_neg busy]
    cases budget with
    | zero =>
      have deep : (evaluator.evaluateWithin 0 id machine).1 =
          .error (.depthExceeded (machine.session.depth + 1) evaluator.limits.depth) :=
        congrArg Prod.fst (lookup_run unknown found busy)
      exact Except.error.inj (deep.symm.trans failed)
    | succ less => rfl

theorem refusal_of_resumes {after : Machine} (resumes : machine.Resumes other after) :
    evaluator.refusal budget id error after = evaluator.refusal budget id error machine := by
  simp only [refusal, resumes.inProgress, resumes.depth]

/-- A failure that is kept of one variable stays when another one is tried, and comes up again when
the same one is. -/
theorem withholds_tried (withholds : machine.context.Withholds id error)
    (same : other = id → evaluator.refusal budget id error machine = error) :
    (tried (evaluator.evaluateWithin budget) machine other).context.Withholds id error := by
  by_cases again : other = id
  · have failed := evaluator.evaluateWithin_of_withholds budget withholds
    rw [same again] at failed
    rw [again]
    exact withholds_of_failed failed
  · have recipe := (evaluator.tried_resumes budget machine other).others id (Ne.symm again)
    have barren := (evaluator.evaluateWithin_barren id budget other machine
      ⟨withholds.barren, trivial⟩).1.1
    exact ⟨value?_tried.trans barren.unknown, recipe.trans withholds.recipe⟩

/-- A failure that is kept stays, whatever is tried afterwards. -/
theorem withholds_foldl_tried (later : List NodeId)
    (withholds : machine.context.Withholds id error)
    (same : id ∈ later → evaluator.refusal budget id error machine = error) :
    (later.foldl (tried (evaluator.evaluateWithin budget)) machine).context.Withholds
      id error := by
  induction later generalizing machine with
  | nil => exact withholds
  | cons other later ih =>
    -- The variable would be refused in the same way as before, as neither level nor path change.
    refine ih (withholds_tried withholds fun here => same (here ▸ List.mem_cons_self))
      fun mem => ?_
    rw [refusal_of_resumes (evaluator.tried_resumes budget machine other)]
    exact same (List.mem_cons_of_mem _ mem)

theorem isSome_thunk?_foldl_tried (earlier : List NodeId)
    (known : (machine.context.thunk? id).isSome) :
    ((earlier.foldl (tried (evaluator.evaluateWithin budget)) machine).context.thunk?
      id).isSome := by
  induction earlier generalizing machine with
  | nil => exact known
  | cons other earlier ih =>
    exact ih ((evaluator.tried_resumes budget machine other).recipes id known)

end Evaluator

namespace Statement

open Evaluator

open Classical in
/-- Where no pending variable reads a later one, settling tries exactly those that reach a target,
in the order of the list, and leaves the others pending in theirs.  It succeeds and reports nothing
itself, whatever fails.  Every failure is kept instead of the recipe of its variable, which has no
value, and comes up again whenever the variable is read.  (If the variable is tried once more, it
must have had a recipe before.) -/
theorem settle_reaching {plan : Plan} (targets : List NodeId) {pending : List NodeId}
    (ordered : plan.Ordered pending) :
    let reaching := pending.filter (plan.Reaches targets pending ·)
    (∀ (evaluate : NodeId → Eval Value) (machine : Machine),
      settle plan evaluate targets pending machine =
        (.ok (pending.filter (¬plan.Reaches targets pending ·)),
          reaching.foldl (tried evaluate) machine) ∧
      ∀ id, (tried evaluate machine id).session = (evaluate id machine).2.session) ∧
    ∀ (evaluator : Evaluator) (budget : Nat) (machine : Machine),
      let attempt := tried (evaluator.evaluateWithin budget)
      let after := (settle plan (evaluator.evaluateWithin budget) targets pending machine).2
      ∀ earlier id later error, reaching = earlier ++ id :: later →
        (evaluator.evaluateWithin budget id (earlier.foldl attempt machine)).1 = .error error →
        (id ∈ later → (machine.context.thunk? id).isSome) →
          after.context.value? id = none ∧ after.context.thunk? id = some (.failed error) ∧
          ∀ reader : Machine, reader.context.value? id = none →
            reader.context.thunk? id = after.context.thunk? id →
            id ∉ reader.context.inProgress → ∀ more,
              (evaluator.evaluateWithin (more + 1) id reader).1 = .error error := by
  intro reaching
  obtain ⟨settled, unsettled⟩ := Plan.settled_eq_filter targets ordered
  have settles (evaluate : NodeId → Eval Value) (machine : Machine) :
      settle plan evaluate targets pending machine =
        (.ok (pending.filter (¬plan.Reaches targets pending ·)),
          reaching.foldl (tried evaluate) machine) := by
    rw [settle_eq, settled, unsettled]
  refine ⟨fun evaluate machine => ⟨settles evaluate machine, fun id => session_tried⟩, ?_⟩
  intro evaluator budget machine attempt after earlier id later error split failed again
  have ends : after = later.foldl attempt (attempt (earlier.foldl attempt machine) id) := by
    change (settle plan (evaluator.evaluateWithin budget) targets pending machine).2 = _
    rw [settles, split, List.foldl_append, List.foldl_cons]
  have withholds : after.context.Withholds id error := by
    rw [ends]
    refine withholds_foldl_tried later (withholds_of_failed failed) fun mem => ?_
    rw [refusal_of_resumes (evaluator.tried_resumes budget _ id)]
    exact refusal_of_failed failed (isSome_thunk?_foldl_tried earlier (again mem))
  refine ⟨withholds.unknown, withholds.recipe, fun reader unknown recipe idle more => ?_⟩
  have same := recipe.trans withholds.recipe
  rw [evaluator.evaluateWithin_of_withholds (more + 1) ⟨unknown, same⟩, refusal, if_neg idle]

/-- Four variables: the first reads the declaration 10, and the second and the fourth read it by
way of the ones before. -/
def cascade : Plan where
  reads := .ofList [(1, [10]), (2, [1]), (3, [11]), (4, [12, 2])]

/-- The first variable divides by zero, and the second has its value. -/
def cascading : Machine where
  context := ((({} : Context).addThunk 1
      { dependencies := [], recipe := .compute fun _ => .error .divisionByZero }).addThunk 2
      { dependencies := [1], recipe := .relay }).addThunk 4
      { dependencies := [], recipe := .compute fun _ => .ok .unit }

/-- When 10 is assigned, only the third variable stays pending; reading the second one fails with
the failure of the first. -/
theorem settle_reaching_cascade :
    cascade.Ordered [1, 2, 3, 4] ∧ ∃ after,
      settle cascade (({} : Evaluator).evaluateWithin 3) [10] [1, 2, 3, 4] cascading =
        (.ok [3], after) ∧
      after.context.thunk? 2 = some (.failed .divisionByZero) ∧
      (({} : Evaluator).evaluateWithin 1 2 after).1 = .error .divisionByZero := by
  have ordered : cascade.Ordered [1, 2, 3, 4] := by decide +kernel
  have tries : cascade.settled [10] [1, 2, 3, 4] = [1, 2, 4] := by decide +kernel
  have leaves : cascade.unsettled [10] [1, 2, 3, 4] = [3] := by decide +kernel
  obtain ⟨settled, unsettled⟩ := Plan.settled_eq_filter [10] ordered
  obtain ⟨settles, keeps⟩ := settle_reaching [10] ordered
  obtain ⟨same, -⟩ := settles (({} : Evaluator).evaluateWithin 3) cascading
  have fails : (({} : Evaluator).evaluateWithin 3 2
      (tried (({} : Evaluator).evaluateWithin 3) cascading 1)).1 = .error .divisionByZero := by
    rfl
  obtain ⟨unknown, recipe, reads⟩ := keeps {} 3 cascading [1] 2 [4] .divisionByZero
    (settled.symm.trans tries) fails nofun
  have left : (settle cascade (({} : Evaluator).evaluateWithin 3) [10] [1, 2, 3, 4] cascading).1 =
      .ok [3] := by
    rw [same, ← unsettled, leaves]
  have idle : 2 ∉ (settle cascade (({} : Evaluator).evaluateWithin 3) [10] [1, 2, 3, 4]
      cascading).2.context.inProgress := by
    decide +kernel
  exact ⟨ordered, _, Prod.ext left rfl, recipe, reads _ unknown rfl idle 0⟩

end Statement

end DeclLang
