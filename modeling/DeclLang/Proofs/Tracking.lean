import DeclLang.Proofs.EvaluationInvariants
import DeclLang.Proofs.UnboundedRuns
import DeclLang.Proofs.ValueErrors

/-!
# Bounded steps track unbounded runs

**Input.**  A run, the step of the machine that does the same, and a level: a value of the depth
counter.

**Invariant.**  `Machine.Level`: the depth counter has that value, and every failure that a context
has kept has one of the given reasons.

**Results.**
* `Run.Tracks`: a run that starts at a level never comes to a session that the watch forbids, and it
  ends at that level; if it is followed long enough, it ends exactly like the step.
* `Run.tracks_repeatLoop`, `Run.tracks_callValue`, `Run.tracks_nested`: loops, calls and nested
  evaluations track their steps as soon as what they are made of does.
* `Evaluator.run_tracks`: an evaluation tracks `Evaluator.evaluateWithin`.  Long enough is the
  number of levels that are left and the number of turns that a loop has.
-/

namespace DeclLang

/-- Reasons for a failure: all that have nothing to do with depth, and to go one level below the
limit. -/
structure Limits.Admits (limits : Limits) (reasons : EvalError → Prop) : Prop where
  plain : ∀ error, ¬error.IsDepth → reasons error
  deep : reasons (.depthExceeded (limits.depth + 1) limits.depth)

/-- An error that a recipe brings along. -/
def Recipe.FailsWith (error : EvalError) : Recipe → Prop
  | .failure other => other = error
  | .compute function => ∃ values, function values = .error error
  | _ => False

/-- Whatever fails by itself in the context fails for one of the reasons. -/
def Context.FailsFor (reasons : EvalError → Prop) (context : Context) : Prop :=
  ∀ id thunk error, context.thunk? id = some thunk → thunk.recipe.FailsWith error → reasons error

/-- The depth counter has a value, and what has failed has failed for one of the reasons. -/
def Machine.Level (reasons : EvalError → Prop) (depth : Nat) (machine : Machine) : Prop :=
  machine.session.depth = depth ∧
    machine.All (Context.FailsFor reasons) fun closure => closure.base.FailsFor reasons

/-- An outcome at a level: a value of some kind, or a failure for one of the reasons. -/
def Machine.EndsAt {α : Type} (reasons : EvalError → Prop) (depth : Nat) (gives : α → Prop)
    (result : Except EvalError α × Machine) : Prop :=
  result.2.Level reasons depth ∧
    match result.1 with
    | .ok a => gives a
    | .error error => reasons error

/-- A step that starts at a level ends at it. -/
def Eval.Stays {α : Type} (reasons : EvalError → Prop) (depth : Nat) (step : Eval α)
    (gives : α → Prop) : Prop :=
  ∀ machine : Machine, machine.Level reasons depth →
    Machine.EndsAt reasons depth gives (step machine)

/-- How far a run from a level has come: it is not over, and was not to be followed to its end; or
it has ended at the level, in the way foretold if it was. -/
def Run.EndsLike {α : Type} (complete : Prop) (reasons : EvalError → Prop) (depth : Nat)
    (gives : α → Prop) (foretold : Except EvalError α × Machine) :
    Except Halt (Except EvalError α × Machine) → Prop
  | .ok result => Machine.EndsAt reasons depth gives result ∧ (complete → result = foretold)
  | .error .unfinished => ¬complete
  | .error .forbidden => False

/-- A run from a level is never forbidden.  The step ends at the level, and so does the run, if it
ends; if it is `complete`, it does end, and like the step. -/
def Run.Tracks {α : Type} (complete : Prop) (reasons : EvalError → Prop) (depth : Nat)
    (run : Run α) (step : Eval α) (gives : α → Prop) : Prop :=
  ∀ machine : Machine, machine.Level reasons depth →
    Machine.EndsAt reasons depth gives (step machine) ∧
      Run.EndsLike complete reasons depth gives (step machine) (run machine)

section Levels

variable {reasons : EvalError → Prop} {depth : Nat} {α β : Type} {gives : α → Prop}
  {more : β → Prop}

namespace Context.FailsFor

variable {context other : Context}

theorem congr (fails : context.FailsFor reasons) (thunks : other.thunks = context.thunks) :
    other.FailsFor reasons := by
  intro id thunk error found
  rw [thunk?, thunks] at found
  exact fails id thunk error found

theorem addThunk (fails : context.FailsFor reasons) (id : NodeId) {error : EvalError}
    (reason : reasons error) : (context.addThunk id (.failed error)).FailsFor reasons := by
  intro other thunk error found failure
  rw [thunk?_addThunk] at found
  split at found
  · cases found
    cases failure
    exact reason
  · exact fails other thunk error found failure

end Context.FailsFor

namespace Machine.Level

variable {machine : Machine}

/-- Only the depth counter and recipes matter. -/
theorem congr (level : machine.Level reasons depth) {context : Context} {session : Session}
    (thunks : context.thunks = machine.context.thunks)
    (made : session.closures = machine.session.closures) {other : Nat}
    (counter : session.depth = other) : Machine.Level reasons other ⟨context, session⟩ :=
  ⟨counter, level.2.1.congr thunks, fun closure mem => level.2.2 closure (made ▸ mem)⟩

/-- Another context can take the place of the current one. -/
theorem withContext (level : machine.Level reasons depth) {context : Context}
    (fails : context.FailsFor reasons) :
    Machine.Level reasons depth { machine with context } :=
  ⟨level.1, fails, level.2.2⟩

end Machine.Level

namespace Eval

theorem stays_pure {a : α} (h : gives a) : Stays reasons depth (pure a) gives :=
  fun _ level => ⟨level, h⟩

theorem stays_throw {error : EvalError} (reason : reasons error) :
    Stays reasons depth (throw error) gives :=
  fun _ level => ⟨level, reason⟩

theorem Stays.bind {step : Eval α} {next : α → Eval β} (first : Stays reasons depth step gives)
    (rest : ∀ a, gives a → Stays reasons depth (next a) more) :
    Stays reasons depth (step >>= next) more := by
  intro machine level
  obtain ⟨level, outcome⟩ := first machine level
  cases ran : step machine with
  | mk result after =>
    rw [ran] at level outcome
    cases result with
    | ok a =>
      rw [Step.bind_ok ran]
      exact rest a outcome after level
    | error error =>
      rw [Step.bind_error ran]
      exact ⟨level, outcome⟩

theorem stays_change {f : Context → Context}
    (h : ∀ context, context.FailsFor reasons → (f context).FailsFor reasons) :
    Stays reasons depth (change f) fun _ => True :=
  fun machine level => ⟨level.withContext (h machine.context level.2.1), trivial⟩

/-- A change of the session that leaves the depth counter and the functions alone. -/
theorem stays_changeSession {f : Session → Session}
    (same : ∀ session, (f session).depth = session.depth ∧
      (f session).closures = session.closures) :
    Stays reasons depth (changeSession f) fun _ => True :=
  fun machine level => ⟨level.congr rfl (same machine.session).2
    ((same machine.session).1.trans level.1), trivial⟩

/-- A new function is made in the current context. -/
theorem stays_makeClosure (name : String) (type : StaticType) (declaration : Node)
    (defaults : List Value) :
    (Call.makeClosure name type declaration defaults).Stays reasons depth fun _ => True := by
  refine fun machine level => ⟨⟨level.1, level.2.1, fun closure mem => ?_⟩, trivial⟩
  rcases Array.mem_push.1 mem with earlier | rfl
  · exact level.2.2 closure earlier
  · exact level.2.1.congr rfl

theorem stays_ofExcept {outcome : Except EvalError α}
    (h : ∀ error, outcome = .error error → reasons error) :
    Stays reasons depth (ofExcept outcome) fun _ => True := by
  cases outcome with
  | ok a => exact stays_pure trivial
  | error error => exact stays_throw (h error rfl)

end Eval

end Levels

namespace Run

variable {complete : Prop} {reasons : EvalError → Prop} {depth : Nat} {α β : Type}
  {gives : α → Prop} {more : β → Prop}

/-- How a sequence of runs goes on. -/
theorem bind_eq (run : Run α) (next : α → Run β) (machine : Machine) :
    (run >>= next) machine =
      match run machine with
      | .ok (.ok a, after) => next a after
      | .ok (.error error, after) => .ok (.error error, after)
      | .error halt => .error halt := by
  simp only [bind, ExceptT.bind, ExceptT.mk, StateT.bind, Except.bind]
  cases run machine with
  | error halt => rfl
  | ok result =>
    obtain ⟨outcome, after⟩ := result
    cases outcome <;> rfl

theorem bind_ok {run : Run α} {next : α → Run β} {machine after : Machine} {a : α}
    (h : run machine = .ok (.ok a, after)) : (run >>= next) machine = next a after := by
  rw [bind_eq, h]

theorem tracks_pure {a : α} (h : gives a) :
    Tracks complete reasons depth (pure a) (pure a) gives :=
  fun _ level => ⟨⟨level, h⟩, ⟨level, h⟩, fun _ => rfl⟩

theorem tracks_throw {error : EvalError} (reason : reasons error) :
    Tracks complete reasons depth (throw error) (throw error) gives :=
  fun _ level => ⟨⟨level, reason⟩, ⟨level, reason⟩, fun _ => rfl⟩

theorem tracks_get : Tracks complete reasons depth get get (Machine.Level reasons depth) :=
  fun _ level => ⟨⟨level, level⟩, ⟨level, level⟩, fun _ => rfl⟩

theorem tracks_context :
    Tracks complete reasons depth context Eval.context (Context.FailsFor reasons) :=
  fun _ level => ⟨⟨level, level.2.1⟩, ⟨level, level.2.1⟩, fun _ => rfl⟩

theorem Tracks.imp {run : Run α} {step : Eval α} {other : α → Prop}
    (h : Tracks complete reasons depth run step gives) (imp : ∀ a, gives a → other a) :
    Tracks complete reasons depth run step other := by
  have weaken {result : Except EvalError α × Machine}
      (ends : Machine.EndsAt reasons depth gives result) :
      Machine.EndsAt reasons depth other result := by
    obtain ⟨outcome, after⟩ := result
    cases outcome with
    | ok a => exact ⟨ends.1, imp a ends.2⟩
    | error error => exact ends
  intro machine level
  obtain ⟨ends, like⟩ := h machine level
  refine ⟨weaken ends, ?_⟩
  cases ran : run machine with
  | ok result =>
    rw [ran] at like
    exact ⟨weaken like.1, like.2⟩
  | error halt =>
    rw [ran] at like
    cases halt <;> exact like

theorem Tracks.bind {run : Run α} {step : Eval α} {next : α → Run β} {rest : α → Eval β}
    (first : Tracks complete reasons depth run step gives)
    (later : ∀ a, gives a → Tracks complete reasons depth (next a) (rest a) more) :
    Tracks complete reasons depth (run >>= next) (step >>= rest) more := by
  intro machine level
  obtain ⟨ends, like⟩ := first machine level
  refine ⟨Eval.Stays.bind (fun machine level => (first machine level).1)
    (fun a given machine level => (later a given machine level).1) machine level, ?_⟩
  rw [bind_eq]
  cases ran : run machine with
  | error halt =>
    rw [ran] at like
    cases halt <;> exact like
  | ok result =>
    rw [ran] at like
    obtain ⟨outcome, after⟩ := result
    obtain ⟨⟨level, outcomeGiven⟩, agrees⟩ := like
    cases outcome with
    | error error =>
      exact ⟨⟨level, outcomeGiven⟩, fun followed => (Step.bind_error (agrees followed).symm).symm⟩
    | ok a =>
      have goesOn := (later a outcomeGiven after level).2
      dsimp only
      cases ranOn : next a after with
      | error halt =>
        rw [ranOn] at goesOn
        cases halt <;> exact goesOn
      | ok result =>
        rw [ranOn] at goesOn
        refine ⟨goesOn.1, fun followed => ?_⟩
        rw [Step.bind_ok (agrees followed).symm]
        exact goesOn.2 followed

theorem Tracks.stays {run : Run α} {step : Eval α}
    (h : Tracks complete reasons depth run step gives) : step.Stays reasons depth gives :=
  fun machine level => (h machine level).1

/-- A run that nobody has to follow to its end may be compared with any step that stays at the
level. -/
theorem Tracks.cross {run : Run α} {step other : Eval α} (cut : ¬complete)
    (h : Tracks complete reasons depth run step gives) (stays : other.Stays reasons depth gives) :
    Tracks complete reasons depth run other gives := by
  intro machine level
  refine ⟨stays machine level, ?_⟩
  have like := (h machine level).2
  cases ran : run machine with
  | ok result =>
    rw [ran] at like
    exact ⟨like.1, fun followed => absurd followed cut⟩
  | error halt =>
    rw [ran] at like
    cases halt <;> exact like

/-- Looking at the machine first makes no difference. -/
theorem tracks_of_get {run : Machine → Run α} {step : Eval α}
    (h : ∀ machine : Machine, machine.Level reasons depth →
      Tracks complete reasons depth (run machine) step gives) :
    Tracks complete reasons depth (get >>= run) step gives :=
  fun machine level => h machine level machine level

theorem tracks_unfinished {step : Eval α} (cut : ¬complete)
    (stays : step.Stays reasons depth gives) :
    Tracks complete reasons depth unfinished step gives :=
  fun machine level => ⟨stays machine level, cut⟩

/-- A run that is to be followed to its end does what the step does. -/
theorem Tracks.eq {run : Run α} {step : Eval α} (h : Tracks True reasons depth run step gives)
    {machine : Machine} (level : machine.Level reasons depth) :
    run machine = .ok (step machine) := by
  have like := (h machine level).2
  cases ran : run machine with
  | ok result =>
    rw [ran] at like
    exact congrArg _ (like.2 trivial)
  | error halt =>
    rw [ran] at like
    cases halt with
    | unfinished => exact absurd trivial like
    | forbidden => exact like.elim

theorem tracks_mapM {items : List β} {run : β → Run α} {step : β → Eval α}
    (each : ∀ item ∈ items, Tracks complete reasons depth (run item) (step item) fun _ => True) :
    Tracks complete reasons depth (items.mapM run) (items.mapM step) fun _ => True := by
  induction items with
  | nil => exact tracks_pure trivial
  | cons item items ih =>
    rw [List.mapM_cons, List.mapM_cons]
    exact (each item List.mem_cons_self).bind fun _ _ =>
      (ih fun other mem => each other (List.mem_cons_of_mem _ mem)).bind fun _ _ =>
        tracks_pure trivial

/-- After a failure it is still known that there was a reason. -/
theorem tracks_attempt {run : Run α} {step : Eval α}
    (h : Tracks complete reasons depth run step gives) :
    Tracks complete reasons depth (attempt run) (Eval.attempt step)
      fun outcome => ∀ error, outcome = .error error → reasons error := by
  have tells {result : Except EvalError α × Machine}
      (ends : Machine.EndsAt reasons depth gives result) :
      Machine.EndsAt reasons depth
        (fun outcome : Except EvalError α => ∀ error, outcome = .error error → reasons error)
        (.ok result.1, result.2) := by
    obtain ⟨outcome, after⟩ := result
    cases outcome with
    | ok a => exact ⟨ends.1, nofun⟩
    | error error => exact ⟨ends.1, fun _ same => by cases same; exact ends.2⟩
  intro machine level
  obtain ⟨ends, like⟩ := h machine level
  refine ⟨tells ends, ?_⟩
  unfold attempt
  cases ran : run machine with
  | error halt =>
    rw [ran] at like
    cases halt <;> exact like
  | ok result =>
    rw [ran] at like
    refine ⟨tells like.1, fun followed => ?_⟩
    rw [like.2 followed]
    rfl

theorem tracks_within {inner : Context} {run : Run α} {step : Eval α}
    (fails : inner.FailsFor reasons) (h : Tracks complete reasons depth run step gives) :
    Tracks complete reasons depth (within inner run) (Eval.within inner step)
      fun result => gives result.1 ∧ result.2.FailsFor reasons := by
  intro machine level
  have comesBack {result : Except EvalError α × Machine}
      (ends : Machine.EndsAt reasons depth gives result) :
      Machine.EndsAt reasons depth
        (fun given : α × Context => gives given.1 ∧ given.2.FailsFor reasons)
        (result.1.map fun a => (a, result.2.context),
          { result.2 with context := machine.context }) := by
    obtain ⟨outcome, after⟩ := result
    refine ⟨ends.1.withContext level.2.1, ?_⟩
    cases outcome with
    | ok a => exact ⟨ends.2, ends.1.2.1⟩
    | error error => exact ends.2
  obtain ⟨ends, like⟩ := h { machine with context := inner } (level.withContext fails)
  refine ⟨comesBack ends, ?_⟩
  unfold within
  cases ran : run { machine with context := inner } with
  | error halt =>
    rw [ran] at like
    cases halt <;> exact like
  | ok result =>
    rw [ran] at like
    refine ⟨comesBack like.1, fun followed => ?_⟩
    rw [like.2 followed]
    rfl

section Watched

variable {watch : Session → Bool}
  (watched : ∀ session : Session, session.depth = depth → watch session = true)

include watched

theorem tracks_take {step : Eval α} (h : step.Stays reasons depth gives) :
    Tracks complete reasons depth (take watch step) step gives := by
  intro machine level
  have ends := h machine level
  have seen : take watch step machine = .ok (step machine) := if_pos (watched _ ends.1.1)
  refine ⟨ends, ?_⟩
  rw [seen]
  exact ⟨ends, fun _ => rfl⟩

theorem tracks_change {f : Context → Context}
    (h : ∀ context, context.FailsFor reasons → (f context).FailsFor reasons) :
    Tracks complete reasons depth (take watch (Eval.change f)) (Eval.change f) fun _ => True :=
  tracks_take watched (Eval.stays_change h)

theorem tracks_changeSession {f : Session → Session}
    (same : ∀ session, (f session).depth = session.depth ∧
      (f session).closures = session.closures) :
    Tracks complete reasons depth (take watch (Eval.changeSession f)) (Eval.changeSession f)
      fun _ => True :=
  tracks_take watched (Eval.stays_changeSession same)

variable {limits : Limits} (admits : limits.Admits reasons) {plan : Plan} {fuel : Nat}
  {run : NodeId → Run Value} {evaluate : NodeId → Eval Value}
  (evaluates : ∀ id, Tracks complete reasons depth (run id) (evaluate id) fun _ => True)

section Statements

include evaluates

theorem tracks_settle (affected pending : List NodeId) :
    Tracks complete reasons depth (settle watch plan run affected pending)
      (Statement.settle plan evaluate affected pending) fun _ => True := by
  induction pending generalizing affected with
  | nil => exact tracks_pure trivial
  | cons first pending ih =>
    unfold settle Statement.settle
    split
    · refine (tracks_attempt (evaluates first)).bind fun outcome reason => ?_
      cases outcome with
      | ok value => exact ih _
      | error error =>
        exact (tracks_change watched fun _ fails => fails.addThunk first (reason error rfl)).bind
          fun _ _ => ih _
    · exact (ih affected).bind fun _ _ => tracks_pure trivial

omit evaluates watched in
theorem tracks_openTurn (subtree : List NodeId) {condition : Run Bool} {test : Eval Bool}
    (h : Tracks complete reasons depth condition test fun _ => True) :
    Tracks complete reasons depth (openTurn subtree condition) (Statement.openTurn subtree test)
      fun result => result.2.FailsFor reasons := by
  refine tracks_context.bind fun context fails => ?_
  have copied : (context.copy.forget subtree).FailsFor reasons := fails.congr rfl
  exact (tracks_within copied h).imp fun _ given => given.2

include admits

theorem tracks_test (id : NodeId) :
    Tracks complete reasons depth (test watch run id) (do Eval.condition (← evaluate id))
      fun _ => True := by
  refine (evaluates id).bind fun value _ => tracks_take watched ?_
  unfold Eval.condition
  split
  · exact Eval.stays_pure trivial
  · exact Eval.stays_throw (admits.plain _ not_false)

omit evaluates admits in
theorem tracks_turn {opened : Context} (fails : opened.FailsFor reasons) {body : Run Flow}
    {block : Eval Flow} (runs : Tracks complete reasons depth body block fun _ => True)
    {again : Run (Option Value)} {rest : Eval (Option Value)}
    (goesOn : Tracks complete reasons depth again rest fun _ => True) :
    Tracks complete reasons depth
      (do
        match ← within opened body with
        | (.returned value, _) => return some value
        | (.next _, closed) =>
          take watch (Eval.change fun context => context.adopt closed)
          again)
      (do
        match ← Eval.within opened block with
        | (.returned value, _) => return some value
        | (.next _, closed) =>
          Eval.change fun context => context.adopt closed
          rest) fun _ => True := by
  refine (tracks_within fails runs).bind fun ended given => ?_
  obtain ⟨flow, closed⟩ := ended
  cases flow with
  | returned value => exact tracks_pure trivial
  | next pending =>
    exact (tracks_change watched fun context fails =>
      fails.congr (context.adopt_rest closed).1).bind fun _ _ => goesOn

section Loops

variable (subtree : List NodeId) {condition : Run Bool} {test : Eval Bool} {body : Run Flow}
  {block : Eval Flow} (tests : Tracks complete reasons depth condition test fun _ => True)
  (runs : Tracks complete reasons depth body block fun _ => True)

include tests runs

omit runs watched evaluates in
/-- A loop whose turns are used up fails if it would go on. -/
theorem tracks_lastTurn (limit : Nat) :
    Tracks complete reasons depth
      (do
        let (holds, _) ← openTurn subtree condition
        if holds then throw (.iterationLimit limit) else return (none : Option Value))
      (do
        let (holds, _) ← Statement.openTurn subtree test
        if holds then throw (.iterationLimit limit) else return none) fun _ => True := by
  refine (tracks_openTurn subtree tests).bind fun result _ => ?_
  dsimp only
  split
  · exact tracks_throw (admits.plain _ not_false)
  · exact tracks_pure trivial

omit admits evaluates in
theorem tracks_nextTurn {again : Run (Option Value)} {rest : Eval (Option Value)}
    (goesOn : Tracks complete reasons depth again rest fun _ => True) :
    Tracks complete reasons depth
      (do
        let (holds, opened) ← openTurn subtree condition
        if holds then
          match ← within opened body with
          | (.returned value, _) => return some value
          | (.next _, closed) =>
            take watch (Eval.change fun context => context.adopt closed)
            again
        else return none)
      (do
        let (holds, opened) ← Statement.openTurn subtree test
        if holds then
          match ← Eval.within opened block with
          | (.returned value, _) => return some value
          | (.next _, closed) =>
            Eval.change fun context => context.adopt closed
            rest
        else return none) fun _ => True := by
  refine (tracks_openTurn subtree tests).bind fun result fails => ?_
  dsimp only
  split
  · exact tracks_turn watched fails runs goesOn
  · exact tracks_pure trivial

omit evaluates in
theorem stays_repeatLoop (turns : Nat) :
    (Statement.repeatLoop limits subtree test block turns).Stays reasons depth fun _ => True := by
  induction turns with
  | zero =>
    rw [Statement.repeatLoop]
    refine (tracks_openTurn subtree tests).stays.bind fun result _ => ?_
    dsimp only
    split
    · refine Eval.stays_throw ?_
      unfold Statement.overrun
      split <;> exact admits.plain _ not_false
    · exact Eval.stays_pure trivial
  | succ turns ih =>
    rw [Statement.repeatLoop]
    have again : Tracks complete reasons depth (take (fun _ => true) _) _ _ :=
      tracks_take (fun _ _ => rfl) ih
    exact (tracks_nextTurn watched subtree tests runs again).stays

omit evaluates in
/-- A loop that is followed for more turns than it has left ends like one of so many turns. -/
theorem tracks_repeatLoop {turn turns : Nat}
    (left : complete → limits.iterations = some (turn + turns) ∧ turns < fuel) :
    Tracks complete reasons depth (repeatLoop watch limits subtree condition body fuel turn)
      (Statement.repeatLoop limits subtree test block turns) fun _ => True := by
  have stays := stays_repeatLoop watched admits subtree tests runs
  induction fuel generalizing turn turns with
  | zero =>
    exact tracks_unfinished (fun followed => absurd (left followed).2 (Nat.not_lt_zero _))
      (stays turns)
  | succ fuel ih =>
    rw [repeatLoop]
    cases reached : limits.iterations.filter (· ≤ turn) with
    | some limit =>
      have ends := tracks_lastTurn admits subtree tests limit
      by_cases followed : complete
      · obtain ⟨limited, -⟩ := left followed
        obtain ⟨same, used⟩ := Option.filter_eq_some_iff.1 reached
        rw [limited] at same
        cases same
        have used : turn + turns ≤ turn := of_decide_eq_true used
        obtain rfl : turns = 0 := by omega
        rw [Statement.repeatLoop, Statement.overrun, limited]
        exact ends
      · exact ends.cross followed (stays turns)
    | none =>
      by_cases followed : complete
      · obtain ⟨limited, enough⟩ := left followed
        cases turns with
        | zero =>
          rw [limited] at reached
          simp at reached
        | succ turns =>
          rw [Statement.repeatLoop]
          refine tracks_nextTurn watched subtree tests runs (ih fun _ => ⟨?_, ?_⟩)
          · rw [limited, Nat.add_right_comm, Nat.add_assoc]
          · exact Nat.lt_of_succ_lt_succ enough
      · have another : Tracks complete reasons depth
            (repeatLoop watch limits subtree condition body fuel (turn + 1))
            (Statement.repeatLoop limits subtree test block 0) fun _ => True :=
          ih fun now => absurd now followed
        exact (tracks_nextTurn watched subtree tests runs another).cross followed (stays turns)

end Loops

theorem tracks_executeExpression (expression : Node) (pending : List NodeId) :
    Tracks complete reasons depth (executeExpression watch plan run expression pending)
      (Statement.executeExpression plan evaluate expression pending) fun _ => True := by
  unfold executeExpression Statement.executeExpression
  cases expression.kind with
  | assignment target value =>
    dsimp only
    cases plan.target? expression.id with
    | none => exact tracks_throw (admits.plain _ not_false)
    | some declaration =>
      refine (tracks_settle watched evaluates _ _).bind fun _ _ => (evaluates _).bind fun _ _ => ?_
      have rebinds : ∀ context : Context, context.FailsFor reasons → ∀ value,
          (context.rebind declaration value).FailsFor reasons := fun _ fails _ => fails.congr rfl
      exact (tracks_change watched fun context fails => rebinds context fails _).bind fun _ _ =>
        tracks_pure trivial
  | _ => exact (evaluates _).bind fun _ _ => tracks_pure trivial

omit watched admits evaluates in
theorem tracks_executeBlock_of {statements : List Node}
    (each : ∀ statement ∈ statements, ∀ pending, Tracks complete reasons depth
      (execute watch plan limits fuel run statement pending)
      (Statement.execute plan limits evaluate statement pending) fun _ => True)
    (pending : List NodeId) :
    Tracks complete reasons depth (executeBlock watch plan limits fuel run statements pending)
      (Statement.executeBlock plan limits evaluate statements pending) fun _ => True := by
  induction statements generalizing pending with
  | nil =>
    rw [executeBlock, Statement.executeBlock]
    exact tracks_pure trivial
  | cons statement statements ih =>
    rw [executeBlock, Statement.executeBlock]
    refine (each statement List.mem_cons_self pending).bind fun flow _ => ?_
    cases flow with
    | next pending => exact ih (fun other mem => each other (List.mem_cons_of_mem _ mem)) pending
    | returned value => exact tracks_pure trivial

/-- A statement is followed to its end if there is fuel for more turns than a loop has. -/
theorem tracks_execute
    (enough : complete → ∃ limit, limits.iterations = some limit ∧ limit < fuel)
    (statement : Node) (pending : List NodeId) :
    Tracks complete reasons depth (execute watch plan limits fuel run statement pending)
      (Statement.execute plan limits evaluate statement pending) fun _ => True := by
  induction statement using Node.children_induction generalizing pending with
  | step statement ih =>
    obtain ⟨id, kind⟩ := statement
    cases kind with
    | branch condition statements =>
      rw [execute, Statement.execute]
      dsimp only [Node.kind_mk]
      rw [← bind_assoc]
      refine (tracks_test watched admits evaluates condition.id).bind fun holds _ => ?_
      cases holds with
      | false => exact tracks_pure trivial
      | true =>
        exact tracks_executeBlock_of (fun inner mem => ih inner (List.mem_cons_of_mem _ mem))
          pending
    | loop condition statements =>
      have body : Tracks complete reasons depth
          (executeBlock watch plan limits fuel run statements [])
          (Statement.executeBlock plan limits evaluate statements []) fun _ => True :=
        tracks_executeBlock_of (fun inner mem => ih inner (List.mem_cons_of_mem _ mem)) []
      rw [execute, Statement.execute]
      dsimp only [Node.kind_mk]
      refine (tracks_settle watched evaluates _ _).bind fun _ _ => ?_
      refine (tracks_repeatLoop watched admits _ (tracks_test watched admits evaluates condition.id)
        body fun followed => ?_).bind fun outcome _ => ?_
      · obtain ⟨limit, limited, less⟩ := enough followed
        rw [limited, Nat.zero_add]
        exact ⟨rfl, less⟩
      · cases outcome <;> exact tracks_pure trivial
    | returnStatement expression? =>
      rw [execute, Statement.execute]
      dsimp only [Node.kind_mk]
      cases expression? with
      | none => exact tracks_pure trivial
      | some expression => exact (evaluates _).bind fun _ _ => tracks_pure trivial
    | expressionStatement expression =>
      rw [execute, Statement.execute]
      exact tracks_executeExpression watched admits evaluates expression pending
    | variableDecl name type? initializer? =>
      rw [execute, Statement.execute]
      dsimp only [Node.kind_mk]
      cases initializer? <;> exact tracks_pure trivial
    | _ =>
      rw [execute, Statement.execute]
      exact tracks_pure trivial

end Statements

section Calls

variable (enough : complete → ∃ limit, limits.iterations = some limit ∧ limit < fuel)

include admits evaluates enough

theorem tracks_callClosure {closure : Closure} (base : closure.base.FailsFor reasons)
    (arguments : Arguments) :
    Tracks complete reasons depth (callClosure watch plan limits fuel run closure arguments)
      (Call.callClosure plan limits evaluate closure arguments) fun _ => True := by
  refine (tracks_take watched (Eval.stays_ofExcept fun error failed =>
    admits.plain error (Call.receive_error failed))).bind fun values _ => ?_
  have fails : (closure.frame plan values).FailsFor reasons :=
    base.congr (Context.addValues_rest _ _).1
  have body : Tracks complete reasons depth
      (executeBlock watch plan limits fuel run (Call.bodyOf closure.declaration) [])
      (Statement.executeBlock plan limits evaluate (Call.bodyOf closure.declaration) [])
      fun _ => True :=
    tracks_executeBlock_of
      (fun statement _ => tracks_execute watched admits evaluates enough statement) []
  refine (tracks_within fails body).bind fun ended _ => ?_
  obtain ⟨flow, context⟩ := ended
  cases flow <;> exact tracks_pure trivial

theorem tracks_callValue (id : NodeId) (callee : Value) (arguments : Arguments)
    (result : StaticType) :
    Tracks complete reasons depth
      (callValue watch plan limits fuel run id callee arguments result)
      (Call.callValue plan limits evaluate id callee arguments result) fun _ => True := by
  unfold callValue Call.callValue
  cases callee.content with
  | builtin path =>
    exact tracks_take watched (Eval.stays_ofExcept fun error failed =>
      admits.plain error (Builtin.call_error failed))
  | closure name declaration serial =>
    refine tracks_get.bind fun machine level => ?_
    cases found : machine.session.closures[serial]? with
    | none => exact tracks_throw (admits.plain _ not_false)
    | some closure =>
      exact tracks_callClosure watched admits evaluates enough
        (level.2.2 closure (Array.mem_of_getElem? found)) arguments
  | recordConstructor record fields =>
    exact (tracks_take watched (Eval.stays_ofExcept fun error failed =>
      admits.plain error (Call.receive_error failed))).bind fun _ _ => tracks_pure trivial
  | caseConstructor caseName => exact tracks_pure trivial
  | _ =>
    refine (tracks_changeSession watched ?_).bind fun _ _ => tracks_pure trivial
    exact fun _ => ⟨rfl, rfl⟩

theorem tracks_follow (id : NodeId) (recipe : Recipe) (values : List Value)
    (failed : ∀ error, recipe.FailsWith error → reasons error) :
    Tracks complete reasons depth (follow watch plan limits fuel run id recipe values)
      (Call.follow plan limits evaluate id recipe values) fun _ => True := by
  have missing : reasons (.missingValue id) := admits.plain _ not_false
  cases recipe with
  | relay =>
    cases values with
    | nil => exact tracks_throw missing
    | cons value values => exact tracks_pure trivial
  | array type => exact tracks_pure trivial
  | closure name type declaration =>
    exact tracks_take watched (Eval.stays_makeClosure name type declaration values)
  | recordConstructor type record fields => exact tracks_pure trivial
  | call result slots =>
    cases values with
    | nil => exact tracks_throw missing
    | cons callee values =>
      exact tracks_callValue watched admits evaluates enough id callee _ result
  | operation operator =>
    rcases values with _ | ⟨left, _ | ⟨right, _ | _⟩⟩
    · exact tracks_throw missing
    · exact tracks_throw missing
    · exact tracks_take watched (Eval.stays_ofExcept fun error failed =>
        admits.plain error (Operator.apply_error failed))
    · exact tracks_throw missing
  | shortCircuit decisive first second =>
    unfold follow Call.follow
    dsimp only
    rw [← bind_assoc]
    refine (tracks_test watched admits evaluates first).bind fun holds _ => ?_
    split
    · exact tracks_pure trivial
    · rw [← bind_assoc]
      exact (tracks_test watched admits evaluates second).bind fun _ _ => tracks_pure trivial
  | failure error => exact tracks_throw (failed error rfl)
  | compute function =>
    exact tracks_take watched (Eval.stays_ofExcept fun error failure =>
      failed error ⟨values, failure⟩)
  | evaluate other => exact evaluates other
  | condition other =>
    unfold follow Call.follow
    dsimp only
    rw [← bind_assoc]
    exact (tracks_test watched admits evaluates other).bind fun _ _ => tracks_pure trivial
  | evaluateApart other =>
    refine tracks_context.bind fun context fails => ?_
    have copied : context.copy.FailsFor reasons := fails.congr rfl
    exact (tracks_within copied (evaluates other)).bind fun _ _ => tracks_pure trivial
  | tally key =>
    refine tracks_get.bind fun _ _ =>
      (tracks_changeSession watched ?_).bind fun _ _ => tracks_pure trivial
    exact fun _ => ⟨rfl, rfl⟩

end Calls

end Watched

section Evaluations

variable {watch : Session → Bool} {id : NodeId}

theorem tracks_lookup {run : Thunk → Run Value} {step : Thunk → Eval Value}
    (missing : reasons (.missingValue id)) (cycle : reasons (.cycle id))
    (h : ∀ thunk, (∀ error, thunk.recipe.FailsWith error → reasons error) →
      Tracks complete reasons depth (run thunk) (step thunk) fun _ => True) :
    Tracks complete reasons depth (lookup run id) (Evaluator.lookup step id) fun _ => True := by
  refine tracks_context.bind fun context fails => ?_
  cases context.value? id with
  | some value => exact tracks_pure trivial
  | none =>
    dsimp only
    cases found : context.thunk? id with
    | none => exact tracks_throw missing
    | some thunk =>
      dsimp only
      split
      · exact tracks_throw cycle
      · exact h thunk fun error => fails id thunk error found

/-- How a nested evaluation goes, as long as the watch allows both levels. -/
theorem nested_eq {run : Run Value} {context : Context} {session : Session}
    (watched : ∀ other : Session, other.depth = session.depth → watch other = true)
    (deeper : ∀ other : Session, other.depth = session.depth + 1 → watch other = true) :
    nested watch id run ⟨context, session⟩ =
      match run ⟨{ context with inProgress := context.inProgress.insert id },
        { session with depth := session.depth + 1 }⟩ with
      | .ok (.ok value, after) => .ok (.ok value,
          ⟨after.context.conclude id value, { after.session with depth := session.depth }⟩)
      | .ok (.error error, after) => .ok (.error error,
          ⟨{ after.context with inProgress := after.context.inProgress.erase id },
            { after.session with depth := session.depth }⟩)
      | .error halt => .error halt := by
  have changed {next : Unit → Run Value} {f : Context → Context} {machine : Machine}
      (seen : watch machine.session = true) :
      (take watch (Eval.change f) >>= next) machine =
        next () { machine with context := f machine.context } :=
    bind_ok (if_pos seen)
  have moved {next : Unit → Run Value} {f : Session → Session} {machine : Machine}
      (seen : watch (f machine.session) = true) :
      (take watch (Eval.changeSession f) >>= next) machine =
        next () { machine with session := f machine.session } :=
    bind_ok (if_pos seen)
  have current : (get : Run Machine) ⟨context, session⟩ =
    .ok (.ok ⟨context, session⟩, ⟨context, session⟩) := rfl
  unfold nested
  rw [bind_ok current, changed (watched _ rfl), moved (deeper _ rfl), bind_eq]
  unfold attempt
  cases run ⟨{ context with inProgress := context.inProgress.insert id },
      { session with depth := session.depth + 1 }⟩ with
  | error halt => rfl
  | ok result =>
    obtain ⟨outcome, after⟩ := result
    dsimp only [Except.map]
    have back : watch { after.session with depth := session.depth } = true := watched _ rfl
    rw [moved back, changed back, bind_eq]
    cases outcome with
    | error error =>
      have failed {machine : Machine} (seen : watch machine.session = true) :
          take watch (Eval.ofExcept (.error error) : Eval Value) machine =
            .ok (.error error, machine) := if_pos seen
      rw [failed back]
    | ok value =>
      have given {machine : Machine} (seen : watch machine.session = true) :
          take watch (Eval.ofExcept (.ok value)) machine = .ok (.ok value, machine) :=
        if_pos seen
      rw [given back]
      dsimp only
      rw [changed back]
      rfl

/-- A nested evaluation goes down one level and comes back up. -/
theorem tracks_nested {run : Run Value} {step : Eval Value}
    (watched : ∀ other : Session, other.depth = depth → watch other = true)
    (deeper : ∀ other : Session, other.depth = depth + 1 → watch other = true)
    (h : Tracks complete reasons (depth + 1) run step fun _ => True) :
    Tracks complete reasons depth (nested watch id run) (Evaluator.nested id step)
      fun _ => True := by
  rintro ⟨context, session⟩ level
  obtain rfl : session.depth = depth := level.1
  have inner : Machine.Level reasons (session.depth + 1)
      ⟨{ context with inProgress := context.inProgress.insert id },
        { session with depth := session.depth + 1 }⟩ :=
    ⟨rfl, level.2.1.congr rfl, level.2.2⟩
  obtain ⟨ends, like⟩ := h _ inner
  rw [nested_eq watched deeper, Evaluator.nested_eq]
  have comesBack {result : Except EvalError Value × Machine}
      (ends : Machine.EndsAt reasons (session.depth + 1) (fun _ => True) result) :
      Machine.EndsAt reasons session.depth (fun _ => True)
        (match result with
        | (.ok value, after) => (.ok value,
          ⟨after.context.conclude id value, { after.session with depth := session.depth }⟩)
        | (.error error, after) => (.error error,
          ⟨{ after.context with inProgress := after.context.inProgress.erase id },
            { after.session with depth := session.depth }⟩)) := by
    obtain ⟨outcome, after⟩ := result
    cases outcome with
    | ok value => exact ⟨⟨rfl, ends.1.2.1.congr rfl, ends.1.2.2⟩, trivial⟩
    | error error => exact ⟨⟨rfl, ends.1.2.1.congr rfl, ends.1.2.2⟩, ends.2⟩
  refine ⟨comesBack ends, ?_⟩
  cases ran : run ⟨{ context with inProgress := context.inProgress.insert id },
      { session with depth := session.depth + 1 }⟩ with
  | error halt =>
    rw [ran] at like
    cases halt <;> exact like
  | ok result =>
    rw [ran] at like
    obtain ⟨outcome, after⟩ := result
    have ends := comesBack like.1
    cases outcome with
    | ok value => exact ⟨ends, fun followed => by rw [← like.2 followed]⟩
    | error error => exact ⟨ends, fun followed => by rw [← like.2 followed]⟩

end Evaluations

end Run

namespace Evaluator

variable {complete : Prop} {reasons : EvalError → Prop} {watch : Session → Bool}
  {evaluator : Evaluator} (admits : evaluator.limits.Admits reasons)
  (watched : ∀ session : Session, session.depth ≤ evaluator.limits.depth → watch session = true)

include admits watched

omit watched in
/-- With no levels left, only a known value is given. -/
theorem run_succ_tracks_zero {depth : Nat} (left : depth = evaluator.limits.depth) (fuel : Nat)
    (id : NodeId) :
    Run.Tracks complete reasons depth (evaluator.run watch (fuel + 1) id)
      (evaluator.evaluateWithin 0 id) fun _ => True := by
  refine Run.tracks_lookup (admits.plain _ not_false) (admits.plain _ not_false) fun _ _ =>
    Run.tracks_get.bind fun machine level => ?_
  obtain rfl : machine.session.depth = depth := level.1
  rw [if_pos (left ▸ Nat.lt_succ_self _)]
  exact Run.tracks_throw (left ▸ admits.deep)

/-- With a level left, what a node needs is evaluated on that level. -/
theorem run_succ_tracks_succ {budget depth fuel : Nat}
    (left : depth + (budget + 1) = evaluator.limits.depth)
    (enough : complete → ∃ limit, evaluator.limits.iterations = some limit ∧ limit < fuel)
    (inner : ∀ id, Run.Tracks complete reasons (depth + 1) (evaluator.run watch fuel id)
      (evaluator.evaluateWithin budget id) fun _ => True) (id : NodeId) :
    Run.Tracks complete reasons depth (evaluator.run watch (fuel + 1) id)
      (evaluator.evaluateWithin (budget + 1) id) fun _ => True := by
  have here : ∀ session : Session, session.depth = depth → watch session = true :=
    fun session same => watched session (by omega)
  have below : ∀ session : Session, session.depth = depth + 1 → watch session = true :=
    fun session same => watched session (by omega)
  refine Run.tracks_lookup (admits.plain _ not_false) (admits.plain _ not_false)
    fun thunk failed => Run.tracks_of_get fun machine level => ?_
  obtain rfl : machine.session.depth = depth := level.1
  rw [if_neg (by omega)]
  exact Run.tracks_nested here below
    ((Run.tracks_mapM fun dependency _ => inner dependency).bind fun values _ =>
      Run.tracks_follow below admits inner enough id thunk.recipe values failed)

/-- With as many levels left as there is a budget, an evaluation tracks the one with that budget. -/
theorem run_tracks {budget depth fuel : Nat} (left : depth + budget = evaluator.limits.depth)
    (enough : complete →
      ∃ limit, evaluator.limits.iterations = some limit ∧ budget + limit + 2 ≤ fuel)
    (id : NodeId) :
    Run.Tracks complete reasons depth (evaluator.run watch fuel id)
      (evaluator.evaluateWithin budget id) fun _ => True := by
  induction budget generalizing depth fuel id with
  | zero =>
    have one (fuel : Nat) (id : NodeId) :
        Run.Tracks complete reasons depth (evaluator.run watch (fuel + 1) id)
          (evaluator.evaluateWithin 0 id) fun _ => True :=
      run_succ_tracks_zero admits left fuel id
    cases fuel with
    | zero =>
      refine Run.tracks_unfinished (fun followed => ?_) (one 0 id).stays
      obtain ⟨limit, -, less⟩ := enough followed
      omega
    | succ fuel => exact one fuel id
  | succ budget ih =>
    have one (fuel : Nat) (enough : complete →
        ∃ limit, evaluator.limits.iterations = some limit ∧ budget + limit + 2 ≤ fuel) :
        ∀ id, Run.Tracks complete reasons depth (evaluator.run watch (fuel + 1) id)
          (evaluator.evaluateWithin (budget + 1) id) fun _ => True :=
      run_succ_tracks_succ admits watched left
        (fun followed => (enough followed).imp fun _ enough => ⟨enough.1, by omega⟩)
        (fun id => ih (by omega) enough id)
    cases fuel with
    | zero =>
      have cut : ¬complete := fun followed => by
        obtain ⟨limit, -, less⟩ := enough followed
        omega
      exact Run.tracks_unfinished cut (one 0 (fun followed => absurd followed cut) id).stays
    | succ fuel =>
      exact one fuel
        (fun followed => (enough followed).imp fun _ enough => ⟨enough.1, by omega⟩) id

/-- A call of a function tracks the call with as many levels as there are. -/
theorem runFunction_tracks {fuel : Nat}
    (enough : complete → ∃ limit, evaluator.limits.iterations = some limit ∧
      evaluator.limits.depth + limit + 2 ≤ fuel) (callee : Value) (arguments : Arguments) :
    Run.Tracks complete reasons 0 (evaluator.runFunction watch fuel callee arguments)
      (evaluator.callFunction callee arguments) fun _ => True := by
  have called : Run.Tracks complete reasons 0
      (Run.callValue watch evaluator.plan evaluator.limits fuel (evaluator.run watch fuel) 0 callee
        arguments .unit)
      (Call.callValue evaluator.plan evaluator.limits
        (evaluator.evaluateWithin evaluator.limits.depth) 0 callee arguments .unit)
      fun _ => True :=
    Run.tracks_callValue (fun session same => watched session (by omega)) admits
      (run_tracks admits watched (Nat.zero_add _) enough)
      (fun followed => (enough followed).imp fun _ enough => ⟨enough.1, by omega⟩) 0 callee
      arguments .unit
  unfold runFunction callFunction
  cases callee.content with
  | closure name declaration serial => exact called.bind fun _ _ => Run.tracks_pure trivial
  | builtin path => exact called.bind fun _ _ => Run.tracks_pure trivial
  | _ => exact Run.tracks_pure trivial

end Evaluator

end DeclLang
