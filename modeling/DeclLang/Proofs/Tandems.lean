import DeclLang.Proofs.ExecutionInvariants
import DeclLang.Proofs.LazyExecution

/-!
# Two executions side by side

**Input.**  Two machines, and a relation between them that evaluation keeps.

**Judgment.**  `Eval.Meets`: started in these two machines, two steps end in machines that are
related again, with outcomes that correspond; or the first step is lost, which means that it has
failed in a way that says nothing about the second one.  What the first machine has for itself it
keeps in any case.

**Results.**  One rule for every way in which steps are put together.
`Statement.executeBlock_meets`: if two ways to evaluate meet at the nodes that statements evaluate,
then so do the two ways to execute the statements.
-/

namespace DeclLang

/-- Both outcomes are results that are related, or both are the same failure. -/
def Corresponds {α β : Type} (gives : α → β → Prop) :
    Except EvalError α → Except EvalError β → Prop
  | .ok a, .ok b => gives a b
  | .error first, .error second => first = second
  | _, _ => False

theorem Corresponds.map {α β γ δ : Type} {gives : α → β → Prop} {more : γ → δ → Prop} {f : α → γ}
    {g : β → δ} {first : Except EvalError α} {second : Except EvalError β}
    (h : Corresponds gives first second) (each : ∀ a b, gives a b → more (f a) (g b)) :
    Corresponds more (first.map f) (second.map g) := by
  cases first with
  | ok a =>
    cases second with
    | ok b => exact each a b h
    | error error => exact h.elim
  | error error =>
    cases second with
    | ok b => exact h.elim
    | error other => exact h

theorem Corresponds.eq {α : Type} {gives : α → α → Prop} (same : ∀ a b, gives a b → a = b)
    {first second : Except EvalError α} (h : Corresponds gives first second) : first = second := by
  cases first with
  | ok a =>
    cases second with
    | ok b => exact congrArg Except.ok (same a b h)
    | error error => exact h.elim
  | error error =>
    cases second with
    | ok b => exact h.elim
    | error other => exact congrArg Except.error h

/-- The outcome is a failure of a kind. -/
def Fails {α : Type} (lost : EvalError → Prop) (outcome : Except EvalError α) : Prop :=
  ∃ error, outcome = .error error ∧ lost error

theorem not_fails_of_isOk {α : Type} {lost : EvalError → Prop} {outcome : Except EvalError α}
    (fine : outcome.isOk = true) : ¬Fails lost outcome := by
  rintro ⟨error, rfl, -⟩
  cases fine

/-- How two machines belong together, what the first one keeps for itself, how its session may
change, and which of its failures say nothing about the other machine. -/
structure Tandem where
  joins : Machine → Machine → Prop
  kept : Machine → Prop
  continues : Session → Session → Prop
  lost : EvalError → Prop
  kept_of_joins : ∀ left right, joins left right → kept left
  refl : ∀ session, continues session session
  trans : ∀ first second third, continues first second → continues second third →
    continues first third

namespace Eval

theorem ofExcept_apply {α : Type} (outcome : Except EvalError α) (machine : Machine) :
    Eval.ofExcept outcome machine = (outcome, machine) := by
  cases outcome <;> rfl

/-- Started in these two machines, the steps end in machines that are joined, and their outcomes
correspond, unless the first one is lost. -/
structure Meets (tandem : Tandem) {α β : Type} (left right : Machine) (first : Eval α)
    (second : Eval β) (gives : Machine → Machine → α → β → Prop) : Prop where
  continues : tandem.continues left.session (first left).2.session
  kept : tandem.kept (first left).2
  ends : Fails tandem.lost (first left).1 ∨ tandem.joins (first left).2 (second right).2 ∧
    Corresponds (gives (first left).2 (second right).2) (first left).1 (second right).1

variable {tandem : Tandem} {α β γ δ : Type} {left right : Machine} {first : Eval α}
  {second : Eval β} {gives : Machine → Machine → α → β → Prop}
  {more : Machine → Machine → γ → δ → Prop}

theorem meets_pure {a : α} {b : β} (joined : tandem.joins left right)
    (h : gives left right a b) : Meets tandem left right (pure a) (pure b) gives where
  continues := tandem.refl _
  kept := tandem.kept_of_joins _ _ joined
  ends := .inr ⟨joined, h⟩

theorem meets_throw (joined : tandem.joins left right) (error : EvalError) :
    Meets tandem left right (throw error) (throw error) gives where
  continues := tandem.refl _
  kept := tandem.kept_of_joins _ _ joined
  ends := .inr ⟨joined, rfl⟩

/-- A step that is lost meets every step. -/
theorem meets_lost (joined : tandem.joins left right) {error : EvalError}
    (failed : first left = (.error error, left)) (lost : tandem.lost error) :
    Meets tandem left right first second gives where
  continues := failed ▸ tandem.refl _
  kept := failed ▸ tandem.kept_of_joins _ _ joined
  ends := .inl ⟨error, congrArg Prod.fst failed, lost⟩

theorem Meets.bind {next : α → Eval γ} {other : β → Eval δ}
    (h : Meets tandem left right first second gives)
    (rest : ∀ after later a b, tandem.joins after later →
      tandem.continues left.session after.session → gives after later a b →
        Meets tandem after later (next a) (other b) more) :
    Meets tandem left right (first >>= next) (second >>= other) more := by
  obtain ⟨continues, kept, ends⟩ := h
  cases ran : first left with
  | mk outcome after =>
    rw [ran] at continues kept ends
    rcases ends with ⟨error, rfl, lost⟩ | ⟨joined, corresponds⟩
    · have failed : (first >>= next) left = (.error error, after) := Step.bind_error ran
      refine ⟨?_, ?_, .inl ⟨error, ?_, lost⟩⟩ <;> rw [failed]
      · exact continues
      · exact kept
    cases again : second right with
    | mk result later =>
      rw [again] at joined corresponds
      cases outcome with
      | error error =>
        cases result with
        | ok b => exact corresponds.elim
        | error same =>
          have failed : (first >>= next) left = (.error error, after) := Step.bind_error ran
          have failedToo : (second >>= other) right = (.error same, later) := Step.bind_error again
          refine ⟨?_, ?_, .inr ?_⟩ <;> rw [failed]
          · exact continues
          · exact kept
          · rw [failedToo]
            exact ⟨joined, corresponds⟩
      | ok a =>
        cases result with
        | error error => exact corresponds.elim
        | ok b =>
          obtain ⟨goesOn, keeps, ends⟩ := rest after later a b joined continues corresponds
          have goes : (first >>= next) left = next a after := Step.bind_ok ran
          have goesToo : (second >>= other) right = other b later := Step.bind_ok again
          refine ⟨?_, ?_, ?_⟩ <;> rw [goes]
          · exact tandem.trans _ _ _ continues goesOn
          · exact keeps
          · rw [goesToo]
            exact ends

theorem Meets.congr {step : Eval α} {other : Eval β} (same : step left = first left)
    (sameToo : other right = second right) (h : Meets tandem left right first second gives) :
    Meets tandem left right step other gives := by
  obtain ⟨continues, kept, ends⟩ := h
  refine ⟨?_, ?_, ?_⟩ <;> rw [same]
  · exact continues
  · exact kept
  · rw [sameToo]
    exact ends

theorem Meets.imp {other : Machine → Machine → α → β → Prop}
    (h : Meets tandem left right first second gives)
    (imp : ∀ after later a b, tandem.joins after later → gives after later a b →
      other after later a b) : Meets tandem left right first second other where
  continues := h.continues
  kept := h.kept
  ends := by
    refine h.ends.imp_right fun ⟨joined, corresponds⟩ => ⟨joined, ?_⟩
    have changed := corresponds.map (f := id) (g := id) fun a b => imp _ _ a b joined
    rwa [Except.map_id, Except.map_id] at changed

/-- A result of an outcome is that outcome. -/
theorem Meets.known {outcome : Except EvalError β}
    (h : Meets tandem left right first (Eval.ofExcept outcome) gives) :
    Meets tandem left right first (Eval.ofExcept outcome)
      fun after later a b => gives after later a b ∧ outcome = .ok b where
  continues := h.continues
  kept := h.kept
  ends := by
    refine h.ends.imp_right fun ⟨joined, corresponds⟩ => ⟨joined, ?_⟩
    rw [ofExcept_apply] at corresponds ⊢
    revert corresponds
    cases (first left).1 <;> cases outcome
    · exact id
    · exact id
    · exact id
    · exact fun given => ⟨given, rfl⟩

theorem meets_ofExcept {outcome : Except EvalError α} {gives : Machine → Machine → α → α → Prop}
    (joined : tandem.joins left right) (h : ∀ a, outcome = .ok a → gives left right a a) :
    Meets tandem left right (Eval.ofExcept outcome) (Eval.ofExcept outcome) gives := by
  cases outcome with
  | ok a => exact meets_pure joined (h a rfl)
  | error error => exact meets_throw joined error

theorem meets_condition (joined : tandem.joins left right) (value : Value) :
    Meets tandem left right (Eval.condition value) (Eval.condition value)
      fun _ _ b other => b = other := by
  unfold Eval.condition
  split
  · exact meets_pure joined rfl
  · exact meets_throw joined _

/-- A failure may be looked at if no step is lost. -/
theorem Meets.attempt (found : ∀ error, ¬tandem.lost error)
    (h : Meets tandem left right first second gives) :
    Meets tandem left right (Eval.attempt first) (Eval.attempt second)
      fun after later => Corresponds (gives after later) where
  continues := h.continues
  kept := h.kept
  ends := .inr (h.ends.resolve_left fun ⟨error, _, lost⟩ => found error lost)

/-- Both contexts are changed at once. -/
theorem meets_change {f g : Context → Context}
    (h : tandem.joins ⟨f left.context, left.session⟩ ⟨g right.context, right.session⟩) :
    Meets tandem left right (Eval.change f) (Eval.change g) fun _ _ _ _ => True where
  continues := tandem.refl _
  kept := tandem.kept_of_joins _ _ h
  ends := .inr ⟨h, trivial⟩

end Eval

/-- What becomes of two machines in the turns of a loop. -/
structure Tandem.Turns (tandem : Tandem) : Prop where
  opens : ∀ left right, tandem.joins left right → ∀ subtree,
    tandem.joins ⟨left.context.copy.forget subtree, left.session⟩
      ⟨right.context.copy.forget subtree, right.session⟩
  returns : ∀ left right after later, tandem.joins left right →
    tandem.continues left.session after.session → tandem.joins after later →
      tandem.joins ⟨left.context, after.session⟩ ⟨right.context, later.session⟩
  keeps : ∀ left right after, tandem.joins left right →
    tandem.continues left.session after.session → tandem.kept after →
      tandem.kept ⟨left.context, after.session⟩
  adopts : ∀ (left right : Machine) turn other, tandem.joins left right →
    tandem.joins ⟨turn, left.session⟩ ⟨other, right.session⟩ →
      tandem.joins ⟨left.context.adopt turn, left.session⟩
        ⟨right.context.adopt other, right.session⟩

/-- Steps that meet in other contexts meet when the machines come back from there. -/
theorem Eval.Meets.within {tandem : Tandem} (turns : tandem.Turns) {α β : Type}
    {left right : Machine} {first : Eval α} {second : Eval β}
    {gives : Machine → Machine → α → β → Prop} {inner other : Context}
    (joined : tandem.joins left right)
    (h : Meets tandem ⟨inner, left.session⟩ ⟨other, right.session⟩ first second gives) :
    Meets tandem left right (Eval.within inner first) (Eval.within other second)
      fun after later a b => tandem.joins ⟨a.2, after.session⟩ ⟨b.2, later.session⟩ ∧
        gives ⟨a.2, after.session⟩ ⟨b.2, later.session⟩ a.1 b.1 := by
  obtain ⟨continues, kept, ends⟩ := h
  refine ⟨continues, turns.keeps left right _ joined continues kept, ?_⟩
  rw [show (Eval.within inner first left).1 = _ from within_fst first left.context inner _,
    show (Eval.within other second right).1 = _ from within_fst second right.context other _]
  rcases ends with ⟨error, failed, lost⟩ | ⟨again, corresponds⟩
  · rw [failed]
    exact .inl ⟨error, rfl, lost⟩
  · exact .inr ⟨turns.returns left right _ _ joined continues again,
      corresponds.map fun _ _ given => ⟨again, given⟩⟩

namespace Statement

/-- The ways to evaluate meet wherever statements evaluate a node or settle variables, and the
machines stay joined when both assign the same value. -/
structure Shared (tandem : Tandem) (plan : Plan) (good : Value → Prop)
    (evaluate again : NodeId → Eval Value) (may waits places : NodeId → Prop) : Prop
    extends tandem.Turns where
  unit : good .unit
  evaluates : ∀ id, may id → ∀ left right, tandem.joins left right →
    Eval.Meets tandem left right (evaluate id) (again id)
      fun _ _ value other => value = other ∧ good value
  settles : ∀ affected pending left right,
    (∀ target ∈ affected, ∃ place, plan.target? place = some target) →
      (∀ id ∈ pending, waits id) → tandem.joins left right →
        Eval.Meets tandem left right (settle plan evaluate affected pending)
          (settle plan again affected pending)
          fun _ _ rest other => rest = other ∧ ∀ id ∈ rest, waits id
  assigns : ∀ place target value left right, places place → plan.target? place = some target →
    good value → tandem.joins left right →
      tandem.joins ⟨left.context.rebind target value, left.session⟩
        ⟨right.context.rebind target value, right.session⟩

/-- Both executions leave the same variables pending, or return the same value. -/
def EndsAlike (good : Value → Prop) (waits : NodeId → Prop) (first second : Flow) : Prop :=
  first = second ∧ match first with
    | .next pending => ∀ id ∈ pending, waits id
    | .returned value => good value

section

variable {tandem : Tandem} {plan : Plan} {limits : Limits} {good : Value → Prop}
  {evaluate again : NodeId → Eval Value} {may waits places : NodeId → Prop}
  {left right : Machine}

/-- Both turns of a loop have the same condition. -/
theorem openTurn_meets (turns : tandem.Turns) (joined : tandem.joins left right)
    (subtree : List NodeId) {condition test : Eval Bool}
    (tests : ∀ left right, tandem.joins left right →
      Eval.Meets tandem left right condition test fun _ _ b other => b = other) :
    Eval.Meets tandem left right (openTurn subtree condition) (openTurn subtree test)
      fun after later opened other => opened.1 = other.1 ∧
        tandem.joins ⟨opened.2, after.session⟩ ⟨other.2, later.session⟩ := by
  have opened := Eval.Meets.within turns joined
    (tests _ _ (turns.opens left right joined subtree))
  have swapped := opened.imp fun _ _ _ _ _ given => And.symm given
  refine swapped.congr ?_ ?_
  · rfl
  · rfl

theorem repeatLoop_meets (turns : tandem.Turns) (subtree : List NodeId)
    {condition test : Eval Bool} {body run : Eval Flow}
    (tests : ∀ left right, tandem.joins left right →
      Eval.Meets tandem left right condition test fun _ _ b other => b = other)
    (runs : ∀ left right, tandem.joins left right →
      Eval.Meets tandem left right body run fun _ _ => EndsAlike good waits)
    (count : Nat) (joined : tandem.joins left right) :
    Eval.Meets tandem left right (repeatLoop limits subtree condition body count)
      (repeatLoop limits subtree test run count)
      fun _ _ outcome other => outcome = other ∧ ∀ value ∈ outcome, good value := by
  have nothing : ∀ value ∈ (none : Option Value), good value := fun value mem =>
    absurd mem (Option.not_mem_none value)
  -- A turn that is adopted leaves the machines joined, so the induction is on the turns left.
  induction count generalizing left right with
  | zero =>
    rw [repeatLoop, repeatLoop]
    refine (openTurn_meets turns joined subtree tests).bind
      fun after later opened other joined _ given => ?_
    obtain ⟨holds, turn⟩ := opened
    obtain ⟨same, _⟩ := other
    obtain ⟨rfl, -⟩ : holds = same ∧ _ := given
    dsimp only
    split
    · exact Eval.meets_throw joined _
    · exact Eval.meets_pure joined ⟨rfl, nothing⟩
  | succ count ih =>
    rw [repeatLoop, repeatLoop]
    refine (openTurn_meets turns joined subtree tests).bind
      fun after later opened other joined _ given => ?_
    obtain ⟨holds, turn⟩ := opened
    obtain ⟨same, otherTurn⟩ := other
    obtain ⟨rfl, opened⟩ : holds = same ∧
      tandem.joins ⟨turn, after.session⟩ ⟨otherTurn, later.session⟩ := given
    dsimp only
    split
    · refine (Eval.Meets.within turns joined (runs _ _ opened)).bind
        fun after later ended other joined _ given => ?_
      obtain ⟨flow, closed⟩ := ended
      obtain ⟨flowToo, closedToo⟩ := other
      obtain ⟨closes, rfl, ends⟩ := given
      cases flow with
      | returned value =>
        refine Eval.meets_pure joined ⟨rfl, fun other same => ?_⟩
        cases same
        exact ends
      | next pending =>
        exact (Eval.meets_change (turns.adopts after later closed closedToo joined closes)).bind
          fun _ _ _ _ joined _ _ => ih joined
    · exact Eval.meets_pure joined ⟨rfl, nothing⟩

variable (shared : Shared tandem plan good evaluate again may waits places)

include shared

theorem executeExpression_meets {expression : Node}
    (evaluated : (∀ target value, expression.kind ≠ .assignment target value) →
      may expression.id)
    (assigned : ∀ target value, expression.kind = .assignment target value →
      may value.id ∧ places expression.id)
    {pending : List NodeId} (waiting : ∀ id ∈ pending, waits id)
    (joined : tandem.joins left right) :
    Eval.Meets tandem left right (executeExpression plan evaluate expression pending)
      (executeExpression plan again expression pending) fun _ _ => EndsAlike good waits := by
  unfold executeExpression
  split
  · rename_i target value same
    split
    · exact Eval.meets_throw joined _
    · rename_i declaration planned
      have affected : ∀ other ∈ [declaration], ∃ place, plan.target? place = some other :=
        fun other mem => ⟨expression.id, List.mem_singleton.1 mem ▸ planned⟩
      obtain ⟨evaluated, placed⟩ := assigned target value same
      refine (shared.settles _ pending _ _ affected waiting joined).bind
        fun after later rest other joined _ given => ?_
      obtain ⟨rfl, restWaits⟩ := given
      refine (shared.evaluates _ evaluated _ _ joined).bind
        fun after later result other joined _ given => ?_
      obtain ⟨rfl, fine⟩ := given
      exact (Eval.meets_change
        (shared.assigns _ _ result _ _ placed planned fine joined)).bind
          fun _ _ _ _ joined _ _ => Eval.meets_pure joined ⟨rfl, restWaits⟩
  · rename_i plain
    exact (shared.evaluates _ (evaluated plain) _ _ joined).bind
      fun _ _ _ _ joined _ _ => Eval.meets_pure joined ⟨rfl, waiting⟩

omit shared in
theorem executeBlock_meets_of {statements : List Node}
    (each : ∀ statement ∈ statements, ∀ pending left right, (∀ id ∈ pending, waits id) →
      tandem.joins left right →
        Eval.Meets tandem left right (execute plan limits evaluate statement pending)
          (execute plan limits again statement pending) fun _ _ => EndsAlike good waits)
    {pending : List NodeId} (waiting : ∀ id ∈ pending, waits id)
    (joined : tandem.joins left right) :
    Eval.Meets tandem left right (executeBlock plan limits evaluate statements pending)
      (executeBlock plan limits again statements pending) fun _ _ => EndsAlike good waits := by
  induction statements generalizing pending left right with
  | nil =>
    rw [executeBlock, executeBlock]
    exact Eval.meets_pure joined ⟨rfl, waiting⟩
  | cons statement statements ih =>
    rw [executeBlock, executeBlock]
    refine (each statement List.mem_cons_self pending _ _ waiting joined).bind
      fun after later flow other joined _ given => ?_
    obtain ⟨rfl, ends⟩ := given
    cases flow with
    | next pending =>
      exact ih (fun other mem => each other (List.mem_cons_of_mem _ mem)) ends joined
    | returned value => exact Eval.meets_pure joined ⟨rfl, ends⟩

theorem execute_meets {statement : Node} (runs : Runs may waits places statement)
    {pending : List NodeId} (waiting : ∀ id ∈ pending, waits id)
    (joined : tandem.joins left right) :
    Eval.Meets tandem left right (execute plan limits evaluate statement pending)
      (execute plan limits again statement pending) fun _ _ => EndsAlike good waits := by
  induction runs generalizing pending left right with
  | branch evaluated _ ih =>
    rw [execute, execute]
    dsimp only [Node.kind_mk]
    refine (shared.evaluates _ evaluated _ _ joined).bind
      fun after later value other joined _ given => ?_
    obtain ⟨rfl, -⟩ := given
    refine (Eval.meets_condition joined value).bind fun after later b other joined _ same => ?_
    subst same
    split
    · exact executeBlock_meets_of (fun statement mem _ _ _ waiting => ih statement mem waiting)
        waiting joined
    · exact Eval.meets_pure joined ⟨rfl, waiting⟩
  | loop evaluated _ ih =>
    rw [execute, execute]
    dsimp only [Node.kind_mk]
    refine (shared.settles _ pending _ _ (fun target mem => ?_) waiting joined).bind
      fun after later rest other joined _ given => ?_
    · obtain ⟨place, -, planned⟩ := List.mem_filterMap.1 mem
      exact ⟨place, planned⟩
    obtain ⟨rfl, restWaits⟩ := given
    have nothing : ∀ id ∈ ([] : List NodeId), waits id :=
      fun _ none => (List.not_mem_nil none).elim
    refine (repeatLoop_meets shared.toTurns _ (fun left right joined =>
      (shared.evaluates _ evaluated _ _ joined).bind fun _ _ value _ joined _ given =>
        given.1 ▸ Eval.meets_condition joined value)
      (fun left right joined => executeBlock_meets_of
        (fun statement mem _ _ _ waiting => ih statement mem waiting) nothing joined) _ joined).bind
        fun after later outcome other joined _ given => ?_
    obtain ⟨rfl, fine⟩ := given
    split
    · exact Eval.meets_pure joined ⟨rfl, fine _ rfl⟩
    · exact Eval.meets_pure joined ⟨rfl, restWaits⟩
  | @other statement simple returned evaluated assigned declared =>
    obtain ⟨id, kind⟩ := statement
    cases kind with
    | branch condition block => exact absurd rfl (simple condition block).1
    | loop condition block => exact absurd rfl (simple condition block).2
    | returnStatement expression? =>
      rw [execute, execute]
      dsimp only [Node.kind_mk]
      cases expression? with
      | none => exact Eval.meets_pure joined ⟨rfl, shared.unit⟩
      | some expression =>
        exact (shared.evaluates _ (returned expression rfl) _ _ joined).bind
          fun _ _ _ _ joined _ given =>
            Eval.meets_pure joined ⟨congrArg Flow.returned given.1, given.2⟩
    | expressionStatement expression =>
      rw [execute_expressionStatement, execute_expressionStatement]
      exact executeExpression_meets shared (evaluated expression rfl)
        (fun target value => assigned expression target value rfl) waiting joined
    | variableDecl name type? initializer? =>
      rw [execute, execute]
      dsimp only [Node.kind_mk]
      cases initializer? with
      | none => exact Eval.meets_pure joined ⟨rfl, waiting⟩
      | some initializer =>
        refine Eval.meets_pure joined ⟨rfl, fun other mem => ?_⟩
        rcases List.mem_append.1 mem with before | last
        · exact waiting other before
        · cases List.mem_singleton.1 last
          exact declared name type? initializer rfl
    | _ =>
      rw [execute, execute]
      exact Eval.meets_pure joined ⟨rfl, waiting⟩

/-- Statements are executed side by side, if the nodes that they evaluate are evaluated so. -/
theorem executeBlock_meets {statements : List Node}
    (runs : ∀ statement ∈ statements, Runs may waits places statement) {pending : List NodeId}
    (waiting : ∀ id ∈ pending, waits id) (joined : tandem.joins left right) :
    Eval.Meets tandem left right (executeBlock plan limits evaluate statements pending)
      (executeBlock plan limits again statements pending) fun _ _ => EndsAlike good waits :=
  executeBlock_meets_of
    (fun statement mem _ _ _ waiting => execute_meets shared (runs statement mem) waiting)
    waiting joined

end

end Statement

end DeclLang
