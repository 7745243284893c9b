import DeclLang.Proofs.SoundRecipes
import DeclLang.StandardLibrary

/-!
# Evaluation respects types

**Input.**  A disciplined program that compiles without a type error, any queries that evaluate its
nodes, and a node.

**Argument.**  By induction on how many further evaluations may be nested: a node is looked up, or
its recipe is followed with the values of its dependencies, and both respect types if all
evaluations below do.

**Results.**  `Compilation.evaluate_safe`: evaluation does not fail because a condition, an operand or
an argument of a native function is of the wrong type, and nothing that cannot be called is called.
What it gives fits the type of its node.
-/

namespace DeclLang

open Inference (reached literalType)

namespace Evaluator

variable {compilation : Compilation} {made : Array Closure} {id : NodeId}

theorem lookup_sound {run : Thunk → Eval Value}
    (h : ∀ made thunk, compilation.context.thunk? id = some thunk ∨
        (∃ error, thunk = .failed error ∧ ¬error.IsTypeError) →
      compilation.Sound made (run thunk) fun later value => compilation.Admits later id value) :
    compilation.Sound made (lookup run id) fun later value => compilation.Admits later id value := by
  refine Compilation.Sound.context.bind fun later context _ typed => ?_
  split
  · rename_i value known
    exact .pure fun _ grown => (typed.values id value known).grow grown
  · split
    · exact .throw not_false
    · rename_i thunk found
      split
      · exact .throw not_false
      · exact h later thunk (typed.thunks id thunk found)

theorem nested_sound {step : Eval Value}
    (h : ∀ made, compilation.Sound made step fun later value => compilation.Admits later id value) :
    compilation.Sound made (nested id step) fun later value => compilation.Admits later id value := by
  have deepens (made : Array Closure) (depth : Nat) : compilation.Sound made
      (Eval.changeSession fun session => { session with depth }) fun _ _ => True :=
    .changeSession (fun _ => rfl) fun _ => rfl
  have progresses (made : Array Closure) (f : Context → Std.TreeSet NodeId) :
      compilation.Sound made
        (Eval.change fun context => { context with inProgress := f context }) fun _ _ => True :=
    .change fun _ _ _ typed => typed.drop (fun _ _ known => known) rfl
  refine Compilation.Sound.get.bind fun later machine _ _ => ?_
  refine (progresses later _).bind fun later _ _ _ => ?_
  refine (deepens later _).bind fun later _ _ _ => ?_
  refine (h later).attempt.bind fun later outcome _ given => ?_
  refine (deepens later _).bind fun later' _ grown _ => ?_
  refine (progresses later' _).bind fun last _ grown' _ => ?_
  refine (Compilation.Sound.ofExcept fun final goesOn => given.imp fun value admits =>
    admits.grow ((grown.trans grown').trans goesOn)).bind fun last value _ admits => ?_
  refine (Compilation.Sound.change fun _ _ grown typed =>
    typed.addValue (admits.grow grown)).bind fun _ _ grown _ => ?_
  exact .pure fun _ goesOn => admits.grow (grown.trans goesOn)

/-- Evaluation respects types. -/
theorem evaluateWithin_sound (checked : compilation.Checked) (budget : Nat) :
    compilation.Evaluates (compilation.evaluator.evaluateWithin budget) := by
  induction budget with
  | zero =>
    intro made id
    exact lookup_sound fun _ _ _ => Compilation.Sound.get.bind fun _ _ _ _ => .throw not_false
  | succ budget ih =>
    intro made id
    refine lookup_sound fun made thunk source => nested_sound fun made => ?_
    have dependencies : compilation.Sound made
        (thunk.dependencies.mapM (compilation.evaluator.evaluateWithin budget)) fun later =>
          List.Forall₂ (compilation.Admits later) thunk.dependencies :=
      .mapM (fun _ _ grown _ _ admits => admits.grow grown) fun made dependency _ =>
        ih made dependency
    refine dependencies.bind fun later values _ admits => ?_
    rcases source with found | ⟨error, rfl, fine⟩
    · have recipe := found
      rw [checked.consistent.context] at found
      obtain ⟨place, mem, rfl, registers⟩ := (Registration.sources_ofProgram compilation.root
        compilation.scope compilation.typing compilation.solution).thunks id thunk found
      exact Call.follow_sound checked ih mem registers recipe admits
    · exact .throw fine

end Evaluator

namespace Query

/-- Whether the query only evaluates nodes of the program. -/
def evaluates : Query → Bool
  | callFunction .. => false
  | _ => true

end Query

namespace Compilation

variable {compilation : Compilation}

/-- A literal fits its type. -/
theorem literal_fits {made : Array Closure} (literal : Literal) :
    compilation.Fits made (Registration.literalValue literal)
      (compilation.erased (literalType literal)) := by
  cases literal with
  | none => exact .any isOpaque_erased_unit
  | boolean b =>
    rw [literalType, show compilation.erased .boolean = .boolean from erased_named _]
    exact .boolean b
  | number x =>
    rw [literalType, show compilation.erased .number = .number from erased_named _]
    exact .number x
  | string text =>
    rw [literalType, show compilation.erased .string = .string from erased_named _]
    exact .string text
  | color text =>
    rw [literalType, show compilation.erased .color = .color from erased_named _]
    exact .color text

variable (checked : compilation.Checked)

include checked

/-- Before anything is evaluated, all values are what types say. -/
theorem Checked.typed_context : compilation.context.Typed compilation #[] where
  values id value known := by
    have own := known
    rw [checked.consistent.context] at known
    obtain ⟨place, mem, rfl, holds⟩ := (Registration.sources_ofProgram compilation.root
      compilation.scope compilation.typing compilation.solution).values id value known
    have inside := Inference.mem_preorder_of_mem_reached mem
    have typed (isTyped : Inference.isTyped place.2 = true) := checked.rules place mem isTyped
    obtain ⟨function?, node⟩ := place
    cases holds with
    | @literal id literal =>
      obtain ⟨type, stored, same⟩ := typed rfl
      have same : compilation.erased type = compilation.erased (literalType literal) := same
      exact admits_expression checked mem rfl (Node.not_isReference_mk rfl) stored
        (same ▸ literal_fits literal)
    | enumerationCase => exact admits_polymorphic checked inside rfl (.caseConstructor rfl)
    | native =>
      refine admits_polymorphic checked inside rfl (.native ⟨_, _, _, _, _, rfl⟩ ?_)
      rw [native?, own]
      rfl
  thunks _ _ found := .inl found

theorem Checked.typed_start : compilation.start.Typed compilation where
  context := checked.typed_context
  closures _ mem := absurd mem (Array.not_mem_empty _)

/-- Queries that evaluate leave a machine behind in which nothing is not what types say. -/
theorem Checked.typed_ask {machine : Machine} (typed : machine.Typed compilation) {query : Query}
    (evaluates : query.evaluates = true) : (query.ask compilation machine).Typed compilation := by
  have evaluation (id : NodeId) :
      Step.Keeps (Machine.Typed compilation) (compilation.evaluator.evaluate id) :=
    fun machine typed => ⟨(Evaluator.evaluateWithin_sound checked _ #[] id machine typed nofun).1,
      fun _ _ => trivial⟩
  refine query.ask_ensures evaluation
    (fun id error machine typed => ⟨⟨typed.context, typed.closures⟩, fun _ _ => trivial⟩)
    (fun _ _ same => ?_) typed
  subst same
  cases evaluates

theorem Checked.typed_after {queries : List Query}
    (evaluating : ∀ query ∈ queries, query.evaluates = true) :
    (compilation.after queries).Typed compilation :=
  List.foldlRecOn queries _ checked.typed_start fun _ typed _ mem =>
    checked.typed_ask typed (evaluating _ mem)

omit checked

/-- Type safety.  Whatever has been evaluated before, evaluating a node does not fail because of the
type of a value, and it reports nothing; a value fits the type of its node.  No failure that is kept
in the machine is about types either. -/
theorem evaluate_safe {options : Options} {rootId : NodeId} {programs : List Node}
    {before after : Reports}
    (compiled : ofPrograms options rootId programs before = (.ok compilation, after))
    (accepted : compilation.unifier.errors = #[]) (disciplined : compilation.Disciplined)
    {queries : List Query} (evaluating : ∀ query ∈ queries, query.evaluates = true) (id : NodeId) :
    let start := compilation.after queries
    let (outcome, machine) := compilation.evaluator.evaluate id start
    (∀ error, outcome = .error error → ¬error.IsTypeError) ∧
      (∀ value, outcome = .ok value → compilation.Admits machine.session.closures id value) ∧
      machine.session.diagnostics = start.session.diagnostics ∧ machine.Typed compilation := by
  intro start
  have checked := checked_of_ofTree (ofTree_of_ofPrograms compiled) accepted disciplined
  obtain ⟨typed, goesOn, outcome⟩ := Evaluator.evaluateWithin_sound checked
    compilation.evaluator.limits.depth #[] id start (checked.typed_after evaluating) nofun
  refine ⟨fun error failed => ?_, fun value given => ?_, goesOn.silent, typed⟩
  · rw [failed] at outcome
    exact outcome
  · rw [given] at outcome
    exact outcome

/-- A function with a default that assigns to its parameter in a loop, a call of it with a label,
and an array. -/
def toggling : Node :=
  .mk 1 (.program
    [.mk 2 (.functionDecl "toggled" []
        [.mk 3 (.parameter "flag" (.mk 4 (.typeName "Boolean" [])) none),
          .mk 5 (.parameter "next" (.mk 6 (.typeName "Boolean" []))
            (some (.mk 7 (.literal (.boolean false)))))]
        (.mk 8 (.typeName "Boolean" []))
        [.mk 9 (.loop (.mk 10 (.identifier "flag"))
            [.mk 11 (.expressionStatement (.mk 12 (.assignment (.mk 13 (.identifier "flag"))
              (.mk 14 (.identifier "next")))))]),
          .mk 15 (.returnStatement (some (.mk 16 (.call
            (.mk 17 (.member (.mk 18 (.identifier "Boolean")) "not"))
            [.mk 19 (.argument none (.mk 20 (.identifier "flag")))]))))]),
      .mk 21 (.variableDecl "first" none (some (.mk 22 (.call (.mk 23 (.identifier "toggled"))
        [.mk 24 (.argument (some "flag") (.mk 25 (.literal (.boolean true))))])))),
      .mk 26 (.variableDecl "both" none (some (.mk 27 (.array
        [.mk 28 (.identifier "first"), .mk 29 (.binary .and (.mk 30 (.identifier "first"))
          (.mk 31 (.literal (.boolean false))))]))))])

/-- After the standard library, the program is disciplined. -/
theorem evaluate_safe_toggling :
    ∃ compilation reports flags,
      ofPrograms {} 0 [StandardLibrary.program 100, toggling] {} = (.ok compilation, reports) ∧
      compilation.unifier.errors = #[] ∧ compilation.Disciplined ∧
      (compilation.evaluator.evaluate 26 (compilation.after [.evaluate 21])).1 = .ok flags ∧
      flags.items?.map (List.map Value.boolean?) = some [some true, some false] ∧
      compilation.Admits
        (compilation.evaluator.evaluate 26 (compilation.after [.evaluate 21])).2.session.closures
        26 flags ∧
      ∀ id error, (compilation.evaluator.evaluate id (compilation.after [.evaluate 21])).1 =
        .error error → ¬error.IsTypeError := by
  have checked : ((ofPrograms {} 0 [StandardLibrary.program 100, toggling] {}).1.toOption.bind
      fun compilation => some (compilation.unifier.errors.isEmpty, decide compilation.Disciplined,
        (compilation.evaluator.evaluate 26 (compilation.after [.evaluate 21])).1.toOption.map
          fun value => value.items?.map (List.map Value.boolean?))) =
      some (true, true, some (some [some true, some false])) := by
    decide +kernel
  obtain ⟨compilation, compiled, holds⟩ := Step.ok_of_toOption checked
  simp only [Option.some.injEq, Prod.mk.injEq, Array.isEmpty_iff, decide_eq_true_eq] at holds
  obtain ⟨accepted, disciplined, given⟩ := holds
  obtain ⟨flags, found, items⟩ := Option.map_eq_some_iff.1 given
  have evaluated := eq_ok_of_toOption found
  have evaluating : ∀ query ∈ [Query.evaluate 21], query.evaluates = true :=
    List.forall_mem_singleton.2 rfl
  have safe := evaluate_safe compiled accepted disciplined evaluating
  exact ⟨compilation, _, flags, compiled, accepted, disciplined, evaluated, items,
    (safe 26).2.1 flags evaluated, fun id => (safe id).1⟩

end Compilation

end DeclLang
