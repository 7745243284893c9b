import DeclLang.Proofs.Derivations
import DeclLang.Proofs.FirstOrder

/-!
# What nodes and calls mean

**Input.**  A compiled program whose functions are only called.

**Construction.**  `Compilation.reference` evaluates the nodes of one activation of a function.
Whatever else the activation needs is answered from outside: the values of nodes that belong to no
function, and the outcomes of calls.  So `Compilation.answer` says what comes of the answers to
other demands.

**Results.**  `Compilation.FirstOrder.improves`: better answers lead to better outcomes.  Hence
`Compilation.meaningOf`: what a node outside of functions and what a call mean.
-/

namespace DeclLang

open Inference (reached)

namespace Compilation

variable (compilation : Compilation)

/-- What an activation may need from outside. -/
inductive Demand where
  | node (id : NodeId)
  | call (function : Node) (values : List Value)

/-- The function value of a declaration, as it is made before anything is evaluated. -/
def closureOf (function : Node) : Closure where
  declaration := function
  parameters := (Call.parametersOf function).map fun parameter => (parameter.1, none)
  base := compilation.context

theorem map_id_closureOf (function : Node) :
    ((compilation.closureOf function).parameters.map fun parameter => parameter.1.id) =
      Call.parameterIds function := by
  rw [closureOf, List.map_map]
  rfl

/-- The outcome of a call with arguments, given the outcomes of calls with values. -/
def answerCall (answers : Demand → Except EvalError Value) (function : Node)
    (arguments : Arguments) : Except EvalError Value :=
  (Call.receive (compilation.closureOf function).slots arguments).bind fun values =>
    answers (.call function values)

end Compilation

/-- Carries an inquiry out that calls no function of the program. -/
def Inquiry.consult (evaluate : NodeId → Eval Value) : Inquiry → Eval Value
  | .answer outcome => Eval.ofExcept outcome
  | .call callee arguments result => Eval.ofExcept (Call.native callee arguments result)
  | .ask other next => do
    (next (← evaluate other)).consult evaluate

namespace Compilation

section

variable (compilation : Compilation) (answers : Demand → Except EvalError Value)

/-- What comes of a thunk, if calls are answered. -/
def consider (evaluate : NodeId → Eval Value) (id : NodeId) (thunk : Thunk) : Eval Value :=
  match compilation.callOf? thunk with
  | some (function, sources, slots) => do
    let values ← sources.mapM evaluate
    Eval.ofExcept (compilation.answerCall answers function (Call.distribute slots values))
  | none => (thunk.inquiry id).consult evaluate

/-- Evaluates a node in an activation of a function, if so many evaluations may be nested.  What
belongs to no function is answered, and so are calls. -/
def reference : Nat → NodeId → Eval Value
  | 0, _ => throw (.depthExceeded 0 0)
  | budget + 1, id =>
    if compilation.isOuter id then
      Eval.ofExcept (answers (.node id))
    else do
      let context ← Eval.context
      match context.value? id with
      | some value => return value
      | none =>
        match compilation.context.thunk? id with
        | none => throw (.missingValue id)
        | some thunk =>
          let value ← compilation.consider answers (reference budget) id thunk
          Eval.change fun context => context.addValue id value
          return value

section

variable {compilation} {answers} {budget : Nat} {id : NodeId} {machine : Machine}

theorem reference_outer (outer : compilation.isOuter id = true) :
    compilation.reference answers (budget + 1) id = Eval.ofExcept (answers (.node id)) :=
  if_pos outer

variable (inner : compilation.isOuter id = false)

include inner

theorem reference_value {value : Value} (known : machine.context.value? id = some value) :
    compilation.reference answers (budget + 1) id machine = (.ok value, machine) := by
  have current : Eval.context machine = (.ok machine.context, machine) := rfl
  rw [reference, if_neg (Bool.eq_false_iff.1 inner), Step.bind_ok current, known]
  rfl

theorem reference_missing (unknown : machine.context.value? id = none)
    (recipe : compilation.context.thunk? id = none) :
    compilation.reference answers (budget + 1) id machine =
      (.error (.missingValue id), machine) := by
  have current : Eval.context machine = (.ok machine.context, machine) := rfl
  rw [reference, if_neg (Bool.eq_false_iff.1 inner), Step.bind_ok current, unknown, recipe]
  rfl

theorem reference_run (unknown : machine.context.value? id = none) {thunk : Thunk}
    (recipe : compilation.context.thunk? id = some thunk) :
    compilation.reference answers (budget + 1) id machine = (do
      let value ← compilation.consider answers (compilation.reference answers budget) id thunk
      Eval.change fun context => context.addValue id value
      return value) machine := by
  have current : Eval.context machine = (.ok machine.context, machine) := rfl
  rw [reference, if_neg (Bool.eq_false_iff.1 inner), Step.bind_ok current, unknown, recipe]

end

/-- What comes of a node that belongs to no function. -/
def outcomeOf (id : NodeId) : Except EvalError Value :=
  match compilation.context.value? id with
  | some value => .ok value
  | none =>
    match compilation.context.thunk? id with
    | none => .error (.missingValue id)
    | some thunk =>
      (compilation.consider answers (fun source => Eval.ofExcept (answers (.node source))) id
        thunk {}).1

/-- What comes of a call with these values. -/
def activate (budget : Nat) (function : Node) (values : List Value) : Except EvalError Value :=
  (Statement.executeBlock compilation.evaluator.plan compilation.evaluator.limits
    (compilation.reference answers budget) (Call.bodyOf function) []
    ⟨(compilation.closureOf function).frame compilation.evaluator.plan values, {}⟩).1.map
      Flow.result

/-- What comes of a demand. -/
def answer (budget : Nat) (answers : Demand → Except EvalError Value) :
    Demand → Except EvalError Value
  | .node id => compilation.outcomeOf answers id
  | .call function values => compilation.activate answers budget function values

end

end Compilation

/-- A step of which the outcome is settled, and that does nothing else. -/
def Eval.Settled {α : Type} (step : Eval α) : Prop :=
  ∀ machine other, step machine = ((step other).1, machine)

namespace Eval

variable {α β : Type}

theorem settled_ofExcept (outcome : Except EvalError α) : Settled (Eval.ofExcept outcome) := by
  intro machine other
  rw [ofExcept_apply, ofExcept_apply]

theorem Settled.bind {step : Eval α} {next : α → Eval β} (h : Settled step)
    (rest : ∀ a, Settled (next a)) : Settled (step >>= next) := by
  intro machine other
  have first := h machine other
  cases ran : step other with
  | mk outcome after =>
    rw [ran] at first
    have after_ : after = other := by
      have again := h other other
      rw [ran] at again
      exact congrArg Prod.snd again
    subst after_
    cases outcome with
    | error error => rw [Step.bind_error first, Step.bind_error ran]
    | ok a =>
      rw [Step.bind_ok first, Step.bind_ok ran]
      exact rest a machine after

theorem settled_mapM {find : NodeId → Except EvalError Value} (ids : List NodeId) :
    Settled (ids.mapM fun id => Eval.ofExcept (find id)) := by
  induction ids with
  | nil => exact fun _ _ => rfl
  | cons id ids ih =>
    rw [List.mapM_cons]
    exact (settled_ofExcept _).bind fun _ => ih.bind fun _ _ _ => rfl

end Eval

/-- What comes of a thunk whose sources are answered is settled. -/
theorem Compilation.settled_consider {compilation : Compilation}
    (answers : Compilation.Demand → Except EvalError Value)
    (find : NodeId → Except EvalError Value) (id : NodeId) (thunk : Thunk) :
    Eval.Settled
      (compilation.consider answers (fun source => Eval.ofExcept (find source)) id thunk) := by
  unfold consider
  split
  · exact (Eval.settled_mapM _).bind fun _ => Eval.settled_ofExcept _
  · generalize thunk.inquiry id = inquiry
    induction inquiry with
    | answer outcome => exact Eval.settled_ofExcept _
    | call callee arguments result => exact Eval.settled_ofExcept _
    | ask source next ih => exact (Eval.settled_ofExcept _).bind ih

/-- Two machines that are the same as long as the first step is not lost. -/
def Tandem.same : Tandem where
  joins := Eq
  kept _ := True
  continues _ _ := True
  lost := EvalError.IsDepth
  kept_of_joins _ _ _ := trivial
  refl _ := trivial
  trans _ _ _ _ _ := trivial

theorem Tandem.turns_same : Tandem.same.Turns where
  opens left right joined subtree := by rw [show left = right from joined]; rfl
  returns left right after later joined _ again := by
    rw [show left = right from joined, show after = later from again]
    rfl
  keeps _ _ _ _ _ _ := trivial
  adopts left right turn other joined again := by
    rw [show left = right from joined] at again ⊢
    cases (again : (⟨turn, right.session⟩ : Machine) = ⟨other, right.session⟩)
    rfl

namespace Eval

/-- Both steps have the same outcome, unless the first one is nested too deeply. -/
def Improved (first second : Eval Value) : Prop :=
  ∀ left right, Tandem.same.joins left right →
    Meets .same left right first second fun _ _ value other => value = other ∧ True

variable {tandem : Tandem} {left right : Machine}

/-- Several nodes are evaluated side by side, if each of them is. -/
theorem meets_mapM {good : Value → Prop} {evaluate again : NodeId → Eval Value} {ids : List NodeId}
    (each : ∀ id ∈ ids, ∀ left right, tandem.joins left right →
      Meets tandem left right (evaluate id) (again id)
        fun _ _ value other => value = other ∧ good value)
    (joined : tandem.joins left right) :
    Meets tandem left right (ids.mapM evaluate) (ids.mapM again)
      fun _ _ values others => values = others ∧ ∀ value ∈ values, good value := by
  induction ids generalizing left right with
  | nil => exact meets_pure joined ⟨rfl, nofun⟩
  | cons id ids ih =>
    rw [List.mapM_cons, List.mapM_cons]
    refine (each id List.mem_cons_self _ _ joined).bind
      fun after later value other joined _ given => ?_
    obtain ⟨rfl, fine⟩ := given
    refine (ih (fun id mem => each id (List.mem_cons_of_mem _ mem)) joined).bind
      fun after later values others joined _ given => ?_
    obtain ⟨rfl, rest⟩ := given
    exact meets_pure joined ⟨rfl, List.forall_mem_cons.2 ⟨fine, rest⟩⟩

/-- A better outcome may take the place of the second one. -/
theorem Meets.improve {α : Type} {gives : Machine → Machine → α → Value → Prop}
    (depth : ∀ error, error.IsDepth → tandem.lost error) {first : Eval α}
    {outcome better : Except EvalError Value}
    (h : Meets tandem left right first (Eval.ofExcept outcome) gives)
    (approximates : Approximates outcome better) :
    Meets tandem left right first (Eval.ofExcept better) gives := by
  refine ⟨h.continues, h.kept, ?_⟩
  rcases h.ends with lost | ⟨joined, corresponds⟩
  · exact .inl lost
  rw [ofExcept_apply] at joined corresponds
  rcases approximates with ⟨error, rfl, deep⟩ | rfl
  · cases failed : (first left).1 with
    | ok value =>
      rw [failed] at corresponds
      exact corresponds.elim
    | error other =>
      rw [failed] at corresponds
      cases (corresponds : other = error)
      exact .inl ⟨error, rfl, depth error deep⟩
  · rw [ofExcept_apply]
    exact .inr ⟨joined, corresponds⟩

end Eval

namespace Compilation

variable {compilation : Compilation}

section Improves

variable {answers better : Demand → Except EvalError Value}
  (finer : ∀ asked, Approximates (answers asked) (better asked))

theorem improved_ofExcept {outcome better : Except EvalError Value}
    (approximates : Approximates outcome better) :
    (Eval.ofExcept outcome).Improved (Eval.ofExcept better) := fun _ _ joined =>
  Eval.Meets.improve (fun _ deep => deep) (Eval.meets_ofExcept joined fun _ _ => ⟨rfl, trivial⟩)
    approximates

include finer

theorem answerCall_approximates (function : Node) (arguments : Arguments) :
    Approximates (compilation.answerCall answers function arguments)
      (compilation.answerCall better function arguments) := by
  unfold answerCall
  cases Call.receive (compilation.closureOf function).slots arguments with
  | error error => exact .inr rfl
  | ok values => exact finer (.call function values)

theorem consider_improved {evaluate again : NodeId → Eval Value}
    (each : ∀ id, (evaluate id).Improved (again id)) (id : NodeId) (thunk : Thunk) :
    (compilation.consider answers evaluate id thunk).Improved
      (compilation.consider better again id thunk) := by
  intro left right joined
  unfold consider
  split
  · rename_i function sources slots found
    refine (Eval.meets_mapM (fun id _ => each id) joined).bind
      fun after later values others joined _ given => ?_
    obtain ⟨rfl, -⟩ := given
    exact improved_ofExcept (answerCall_approximates finer function _) after later joined
  · generalize thunk.inquiry id = inquiry
    induction inquiry generalizing left right with
    | answer outcome => exact Eval.meets_ofExcept joined fun _ _ => ⟨rfl, trivial⟩
    | call callee arguments result => exact Eval.meets_ofExcept joined fun _ _ => ⟨rfl, trivial⟩
    | ask other next ih =>
      refine (each other left right joined).bind fun after later value same joined _ given => ?_
      obtain ⟨rfl, -⟩ := given
      exact ih value after later joined

theorem reference_improved {budget more : Nat} (le : budget ≤ more) (id : NodeId) :
    (compilation.reference answers budget id).Improved (compilation.reference better more id) := by
  -- Without a budget the outcome is lost, and every recipe spends one level of both budgets.
  induction budget generalizing more id with
  | zero => exact fun _ _ joined => Eval.meets_lost joined rfl trivial
  | succ budget ih =>
    obtain ⟨extra, rfl⟩ := Nat.exists_eq_add_of_lt (Nat.lt_of_succ_le le)
    have enough : budget ≤ budget + extra := Nat.le_add_right budget extra
    unfold reference
    split
    · exact improved_ofExcept (finer (.node id))
    · intro left right joined
      have contexts : Eval.Meets .same left right Eval.context Eval.context
          fun _ _ context other => context = other :=
        ⟨trivial, trivial, .inr ⟨joined, congrArg Machine.context joined⟩⟩
      refine contexts.bind fun after later context other joined _ same => ?_
      subst same
      split
      · exact Eval.meets_pure joined ⟨rfl, trivial⟩
      · split
        · exact Eval.meets_throw joined _
        · rename_i thunk _
          refine (consider_improved finer (fun id => ih enough id) id thunk after later joined).bind
            fun after later value other joined _ given => ?_
          obtain ⟨rfl, -⟩ := given
          have changed : Tandem.same.joins ⟨after.context.addValue id value, after.session⟩
              ⟨later.context.addValue id value, later.session⟩ := by
            rw [show after = later from joined]
            rfl
          exact (Eval.meets_change changed).bind
            fun _ _ _ _ joined _ _ => Eval.meets_pure joined ⟨rfl, trivial⟩

theorem outcomeOf_approximates (id : NodeId) :
    Approximates (compilation.outcomeOf answers id) (compilation.outcomeOf better id) := by
  unfold outcomeOf
  split
  · exact .inr rfl
  · split
    · exact .inr rfl
    · rename_i thunk _
      have improved : (compilation.consider answers _ id thunk).Improved
          (compilation.consider better _ id thunk) :=
        consider_improved finer (fun source => improved_ofExcept (finer (.node source))) id thunk
      exact (improved {} {} rfl).ends.imp_right fun ends => ends.2.eq fun _ _ => And.left

theorem FirstOrder.activate_approximates (firstOrder : compilation.FirstOrder)
    {budget more : Nat} (le : budget ≤ more) (function : Node) (values : List Value) :
    Approximates (compilation.activate answers budget function values)
      (compilation.activate better more function values) := by
  have shared : Statement.Shared .same compilation.evaluator.plan (fun _ => True)
      (compilation.reference answers budget) (compilation.reference better more)
      (fun _ => True) (fun _ => True) fun _ => True :=
    { toTurns := Tandem.turns_same
      unit := trivial
      evaluates := fun id _ => reference_improved finer le id
      settles := fun affected pending left right planned waiting joined => by
        rw [firstOrder.settle_idle planned, firstOrder.settle_idle planned]
        exact Eval.meets_pure joined ⟨rfl, waiting⟩
      assigns := fun _ _ _ left right _ _ _ joined => by
        rw [show left = right from joined]
        rfl }
  let start : Machine :=
    ⟨(compilation.closureOf function).frame compilation.evaluator.plan values, {}⟩
  have meets : Eval.Meets .same start start
      (Statement.executeBlock compilation.evaluator.plan compilation.evaluator.limits _
        (Call.bodyOf function) []) _ _ :=
    Statement.executeBlock_meets shared
      (fun _ _ => Statement.runs_of_identities fun _ _ => trivial) (fun _ _ => trivial) rfl
  unfold activate
  rcases meets.ends with ⟨error, failed, deep⟩ | ⟨-, corresponds⟩
  · rw [failed]
    exact .inl ⟨error, rfl, deep⟩
  · exact .inr (congrArg (Except.map Flow.result) (corresponds.eq fun _ _ => And.left))

end Improves

/-- Better answers and higher budgets lead to better outcomes. -/
theorem FirstOrder.improves (firstOrder : compilation.FirstOrder) :
    Improves compilation.answer := by
  intro budget more answers better le finer demand
  cases demand with
  | node id => exact outcomeOf_approximates finer id
  | call function values => exact firstOrder.activate_approximates finer le function values

/-- What a demand comes to, however it is met. -/
noncomputable def meaningOf (compilation : Compilation) : Demand → Except EvalError Value :=
  meaning compilation.answer

theorem FirstOrder.outcomeOf_means (firstOrder : compilation.FirstOrder) (id : NodeId) :
    Approximates (compilation.outcomeOf compilation.meaningOf id)
      (compilation.meaningOf (.node id)) :=
  run_meaning firstOrder.improves 0 (.node id)

theorem FirstOrder.activate_means (firstOrder : compilation.FirstOrder) (budget : Nat)
    (function : Node) (values : List Value) :
    Approximates (compilation.activate compilation.meaningOf budget function values)
      (compilation.meaningOf (.call function values)) :=
  run_meaning firstOrder.improves budget (.call function values)

end Compilation

end DeclLang
