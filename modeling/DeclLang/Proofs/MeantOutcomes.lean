import DeclLang.Proofs.MeantCalls
import DeclLang.Proofs.RestoredContexts

/-!
# Evaluation comes to what is meant

**Input.**  A compiled program whose functions are only called.

**Invariant.**  `Machine.Resting`: all contexts at hand are regular, and nothing is being evaluated.

**Results.**
* `Compilation.evaluateWithin_realizes`: evaluation comes to what is meant, by induction on how
  many evaluations may be nested.
* `Compilation.evaluate_means`, `Compilation.callClosure_means`: whatever a program was asked for
  before, unless functions were handed to functions, nodes that belong to no function have their
  meaning, and so have calls; or evaluations are nested too deeply.
-/

namespace DeclLang

open Step (Keeps)
open Inference (reached)

/-- Takes a step one level deeper while a node counts as being evaluated. -/
def Eval.deeper {α : Type} (id : NodeId) (step : Eval α) : Eval α := fun machine =>
  let ran := step ⟨{ machine.context with inProgress := machine.context.inProgress.insert id },
    { machine.session with depth := machine.session.depth + 1 }⟩
  (ran.1, ⟨{ ran.2.context with inProgress := ran.2.context.inProgress.erase id },
    { ran.2.session with depth := machine.session.depth }⟩)

/-- The value of a step one level deeper is kept. -/
theorem Evaluator.nested_eq_deeper (id : NodeId) (step : Eval Value) :
    nested id step = (do
      let value ← Eval.deeper id step
      Eval.change fun context => context.addValue id value
      return value) := by
  funext machine
  rw [nested_eq id step machine.context machine.session]
  cases ran : step ⟨{ machine.context with inProgress := machine.context.inProgress.insert id },
      { machine.session with depth := machine.session.depth + 1 }⟩ with
  | mk outcome after =>
    have deep : Eval.deeper id step machine = (outcome,
        ⟨{ after.context with inProgress := after.context.inProgress.erase id },
          { after.session with depth := machine.session.depth }⟩) := by
      unfold Eval.deeper
      rw [ran]
    cases outcome with
    | ok value =>
      rw [Step.bind_ok deep]
      rfl
    | error error =>
      rw [Step.bind_error deep]

namespace Compilation

variable {compilation : Compilation} (consistent : compilation.Consistent)
  (firstOrder : compilation.FirstOrder)

section Nodes

variable {rank : NodeId → Nat} {budget : Nat} {inside busy : NodeId → Prop} {left right : Machine}
  {id : NodeId}

include firstOrder in
/-- A node with a value, or without a recipe, comes to what is meant; so does every other node, if
its recipe does. -/
theorem lookup_meets {run : Thunk → Eval Value} (closed : compilation.Inside inside)
    (lower : ∀ other, busy other → rank id < rank other)
    (mirrors : compilation.Mirrors inside busy left right) (data : compilation.function? id = none)
    (place : compilation.isOuter id = true ∨ inside id)
    (runs : ∀ thunk, compilation.context.thunk? id = some thunk →
      left.context.value? id = none →
        compilation.Agree inside busy left right (run thunk)
          (compilation.reference compilation.meaningOf (budget + 1) id)) :
    compilation.Agree inside busy left right (Evaluator.lookup run id)
      (compilation.reference compilation.meaningOf (budget + 1) id) := by
  have regular := mirrors.regular.context
  cases known : left.context.value? id with
  | some value =>
    have met : compilation.Agree inside busy left right (pure value) (pure value) :=
      Eval.meets_pure mirrors ⟨rfl, regular.data id value data known⟩
    rcases place with outer | mem
    · refine met.congr (Evaluator.lookup_value known) ?_
      rw [reference_outer outer, regular.outer id value outer data known]
      rfl
    · exact met.congr (Evaluator.lookup_value known)
        (reference_value (closed.inner id mem)
          ((mirrors.values id mem).symm.trans known))
  | none =>
    cases recipe : compilation.context.thunk? id with
    | none =>
      have missing : Evaluator.lookup run id left = (.error (.missingValue id), left) :=
        Evaluator.lookup_missing known ((regular.thunk? id).trans recipe)
      rcases place with outer | mem
      · have nothing : compilation.context.value? id = none := by
          rw [← regular.kept id recipe, known]
          exact fun binds => by rw [isOuter_of_binds binds] at outer; cases outer
        have means := firstOrder.outcomeOf_means id
        unfold outcomeOf at means
        rw [nothing, recipe] at means
        rw [reference_outer outer]
        exact ((Eval.meets_throw mirrors (.missingValue id)).congr missing rfl).improve
          (fun _ deep => deep) means
      · refine (Eval.meets_throw mirrors (.missingValue id)).congr missing ?_
        exact reference_missing (closed.inner id mem)
          ((mirrors.values id mem).symm.trans known) recipe
    | some thunk =>
      refine (runs thunk recipe known).congr ?_ rfl
      exact Evaluator.lookup_run known ((regular.thunk? id).trans recipe)
        fun busy => Nat.lt_irrefl _ (lower id (mirrors.progress id busy))

/-- Steps meet one level deeper. -/
theorem deeper_meets {α β : Type} {step : Eval α} {second : Eval β}
    (gives : Array Closure → α → β → Prop) (mirrors : compilation.Mirrors inside busy left right)
    (h : ∀ left, compilation.Mirrors inside (fun other => other = id ∨ busy other) left right →
      Eval.Meets (compilation.mirrors inside fun other => other = id ∨ busy other) left right
        step second fun after _ => gives after.session.closures) :
    Eval.Meets (compilation.mirrors inside busy) left right (Eval.deeper id step) second
      fun after _ => gives after.session.closures := by
  obtain ⟨continues, kept, ends⟩ := h
    ⟨{ left.context with inProgress := left.context.inProgress.insert id },
      { left.session with depth := left.session.depth + 1 }⟩
    (mirrors.progressed (fun other mem =>
      ((Context.mem_inProgress_insert left.context id other).1 mem).imp_right
        (mirrors.progress other)) _ rfl)
  have progress (context : Context)
      (h : ∀ other ∈ context.inProgress, other = id ∨ busy other) :
      ∀ other ∈ context.inProgress.erase id, busy other := fun other mem =>
    have ⟨different, before⟩ := (context.mem_inProgress_erase id other).1 mem
    (h other before).resolve_left different
  refine ⟨continues, ?_, ends.imp_right fun ⟨joined, corresponds⟩ => ⟨?_, corresponds⟩⟩
  · exact ⟨⟨kept.1.context.congr rfl rfl, kept.1.closures⟩, progress _ kept.2⟩
  · exact Mirrors.progressed joined (progress _ kept.2) _ rfl

/-- What stands for a function comes to a function value of it, if its recipe does. -/
theorem lookup_function {run : Thunk → Eval Value} {function : Node}
    (lower : ∀ other, busy other → rank id < rank other)
    (mirrors : compilation.Mirrors inside busy left right)
    (found : compilation.function? id = some function)
    (runs : ∀ thunk, compilation.context.thunk? id = some thunk →
      compilation.Finds inside busy function left right (run thunk)) :
    compilation.Finds inside busy function left right (Evaluator.lookup run id) := by
  have regular := mirrors.regular.context
  cases known : left.context.value? id with
  | some value =>
    exact (Eval.meets_pure (a := value) (b := ()) mirrors
      (regular.functions id function value found known)).congr (Evaluator.lookup_value known) rfl
  | none =>
    obtain ⟨thunk, recipe⟩ := thunk?_of_function? found
    refine (runs thunk recipe).congr ?_ rfl
    exact Evaluator.lookup_run known ((regular.thunk? id).trans recipe)
      fun busy => Nat.lt_irrefl _ (lower id (mirrors.progress id busy))

/-- The value of a node is kept. -/
theorem keep_meets {β : Type} {value : Value} {b : β}
    {gives : Machine → Machine → Value → β → Prop}
    (mirrors : compilation.Mirrors inside busy ⟨left.context.addValue id value, left.session⟩ right)
    (h : gives ⟨left.context.addValue id value, left.session⟩ right value b) :
    Eval.Meets (compilation.mirrors inside busy) left right
      (do
        Eval.change fun context => context.addValue id value
        return value)
      (pure b) gives where
  continues := .refl _
  kept := ⟨mirrors.regular, mirrors.progress⟩
  ends := .inr ⟨mirrors, h⟩

/-- A function value is made of a declaration without defaults. -/
theorem makeClosure_meets {function? : Option Node} {function : Node}
    (place : (function?, function) ∈ reached none compilation.root)
    (none_ : ((Call.parametersOf function).filter Prod.snd).length = 0) (name : String)
    (type : StaticType) (mirrors : compilation.Mirrors inside busy left right) :
    compilation.Finds inside busy function left right
      (Call.makeClosure name type function []) := by
  obtain ⟨regular, closures⟩ := mirrors.regular
  let made : Closure :=
    { declaration := function
      parameters := Call.distribute (Call.parametersOf function) []
      base := left.context.copy }
  have grown := Grown.push left.session.closures made
  have copied : left.context.copy.Regular compilation left.session.closures :=
    regular.congr rfl rfl
  have own : made.Regular compilation (left.session.closures.push made) :=
    { parameters := Call.distribute_of_none none_ []
      place := ⟨function?, place⟩
      base := copied.grow grown }
  have joined : compilation.Mirrors inside busy
      ⟨left.context, { left.session with closures := left.session.closures.push made }⟩ right := by
    refine mirrors.continue_ grown fun closure mem => ?_
    rcases Array.mem_push.1 mem with before | rfl
    · exact (closures closure before).grow grown
    · exact own
  exact ⟨grown, ⟨joined.regular, joined.progress⟩, .inr ⟨joined,
    ⟨name, left.session.closures.size, made, rfl, Array.getElem?_push_size, rfl⟩⟩⟩

section Step

variable (ranked : ∀ id thunk, compilation.context.thunk? id = some thunk →
    ∀ source ∈ thunk.sources, rank source < rank id)
  (realizes : compilation.Realizes rank budget) (closed : compilation.Inside inside)
  (lower : ∀ other, busy other → rank id < rank other)
  (mirrors : compilation.Mirrors inside busy left right)

include ranked lower in
omit realizes closed in
/-- Sources are below whatever is in progress. -/
theorem rank_lt {thunk : Thunk} (found : compilation.context.thunk? id = some thunk)
    (source : NodeId) (mem : source ∈ thunk.sources) (other : NodeId)
    (above : other = id ∨ busy other) : rank source < rank other := by
  rcases above with rfl | above
  · exact ranked other thunk found source mem
  · exact (ranked id thunk found source mem).trans (lower other above)

include consistent firstOrder ranked realizes closed lower

/-- The recipe of a node comes to what it should, one level deeper. -/
theorem recipe_meets {thunk : Thunk} {again : NodeId → Eval Value}
    (found : compilation.context.thunk? id = some thunk) (data : compilation.function? id = none)
    (each : ∀ source ∈ compilation.dataOf thunk,
      (compilation.isOuter source = true ∨ inside source) ∧
        again source = compilation.reference compilation.meaningOf (budget + 1) source)
    (mirrors : compilation.Mirrors inside busy left right) :
    compilation.Agree inside busy left right
      (Eval.deeper id (compilation.carryOut budget id thunk))
      (compilation.consider compilation.meaningOf again id thunk) := by
  have below := rank_lt ranked lower found
  refine deeper_meets (fun _ (value other : Value) => value = other ∧ value.inert = true) mirrors
    fun left mirrors => consider_meets consistent firstOrder realizes found data
      (fun source mem left right joined => ?_)
      (fun source mem function stands left right joined =>
        realizes.functions closed (below source mem) joined stands) mirrors
  obtain ⟨place, same⟩ := each source mem
  rw [same]
  exact realizes.data closed (below source (mem_sources_of_mem_dataOf mem)) joined
    ((firstOrder.recipes id thunk found data).2 source mem) place

/-- A node that belongs to no function comes to its meaning. -/
theorem nested_outer {thunk : Thunk} (found : compilation.context.thunk? id = some thunk)
    (data : compilation.function? id = none) (outer : compilation.isOuter id = true)
    (mirrors : compilation.Mirrors inside busy left right) :
    compilation.Agree inside busy left right
      (Evaluator.nested id (compilation.carryOut budget id thunk))
      (Eval.ofExcept (compilation.meaningOf (.node id))) := by
  have around (source : NodeId) (mem : source ∈ compilation.dataOf thunk) :
      compilation.isOuter source = true :=
    (firstOrder.enclosed id thunk found source (mem_sources_of_mem_dataOf mem)).resolve_right
      fun ⟨function, owned, _⟩ => isOuter_iff.1 outer function owned
  have answered := recipe_meets consistent firstOrder ranked realizes closed lower found data
    (fun source mem => ⟨.inl (around source mem), (reference_outer (around source mem)).symm⟩)
    mirrors
  have outcome : compilation.outcomeOf compilation.meaningOf id =
      (compilation.consider compilation.meaningOf
        (fun source => Eval.ofExcept (compilation.meaningOf (.node source))) id thunk {}).1 := by
    unfold outcomeOf
    cases known : compilation.context.value? id with
    | none => rw [found]
    | some value =>
      rw [(firstOrder.values id value known).1] at found
      cases found
  have means := (answered.congr rfl (by
    rw [settled_consider _ _ id thunk right {}, ← outcome, Eval.ofExcept_apply])).improve
      (fun _ deep => deep) (firstOrder.outcomeOf_means id)
  rw [Evaluator.nested_eq_deeper, ← bind_pure (Eval.ofExcept _)]
  refine means.known.bind fun after later value other joined _ given => ?_
  obtain ⟨⟨rfl, inert⟩, same⟩ := given
  -- Only the machine of the program keeps the value, as the node is none of those that are shared.
  have apart : ¬inside id := fun mem => by
    rw [closed.inner id mem] at outer
    cases outer
  refine keep_meets (Mirrors.addValue_left joined apart ?_) ⟨rfl, inert⟩
  exact Context.Regular.addValue joined.regular.context (.inr (by rw [found]; rfl))
    (fun _ => inert) (fun _ _ => same) fun function stands => by rw [data] at stands; cases stands

/-- A node in an activation comes to what the answers make of it. -/
theorem nested_inner {thunk : Thunk} (found : compilation.context.thunk? id = some thunk)
    (unknown : left.context.value? id = none) (inner : inside id)
    (mirrors : compilation.Mirrors inside busy left right) :
    compilation.Agree inside busy left right
      (Evaluator.nested id (compilation.carryOut budget id thunk))
      (compilation.reference compilation.meaningOf (budget + 2) id) := by
  have free : compilation.Free id :=
    ⟨closed.inner id inner, closed.data id inner, .inr (by rw [found]; rfl)⟩
  have answered := recipe_meets consistent firstOrder ranked realizes closed lower found free.data
    (fun source mem => ⟨closed.closed id thunk inner found source mem, rfl⟩) mirrors
  rw [Evaluator.nested_eq_deeper]
  refine Eval.Meets.congr rfl (reference_run free.inner
    ((mirrors.values id inner).symm.trans unknown) found) ?_
  refine answered.bind fun after later value other joined _ given => ?_
  obtain ⟨rfl, inert⟩ := given
  exact (Eval.meets_change (Mirrors.addValue joined free inert)).bind
    fun _ _ _ _ joined _ _ => Eval.meets_pure joined ⟨rfl, inert⟩

/-- What stands for a function comes to a function value of it. -/
theorem nested_function {thunk : Thunk} {function : Node}
    (found : compilation.context.thunk? id = some thunk)
    (stands : compilation.function? id = some function)
    (mirrors : compilation.Mirrors inside busy left right) :
    compilation.Finds inside busy function left right
      (Evaluator.nested id (compilation.carryOut budget id thunk)) := by
  have below := rank_lt ranked lower found
  have apart : ¬inside id := fun mem => by
    rw [closed.data id mem] at stands
    cases stands
  unfold Finds carryOut
  rw [Evaluator.nested_eq_deeper, ← bind_pure (pure ())]
  refine (deeper_meets (fun made (value : Value) _ => value.Denotes made function) mirrors
    fun left mirrors => ?_).bind fun after later value _ joined _ denotes => ?_
  · rcases function?_inv stands with ⟨thunk', name, type, found', makes⟩ | ⟨source, refers, same⟩
    · cases found.symm.trans found'
      obtain ⟨-, ⟨function?, place⟩, count⟩ := makes_of_thunk? consistent found makes
      have alone := (firstOrder.functions id thunk name type function found makes).2
      rw [alone] at count ⊢
      rw [makes]
      exact makeClosure_meets place count name type mirrors
    · cases found.symm.trans refers
      rw [List.mapM_cons, List.mapM_nil, bind_assoc, ← bind_pure (pure ())]
      refine (realizes.functions closed (below source List.mem_cons_self) mirrors same).bind
        fun after later value _ joined _ denotes => ?_
      exact Eval.meets_pure joined denotes
  · refine keep_meets (Mirrors.addValue_left joined apart ?_) denotes
    have noData (data : compilation.function? id = none) : False := by
      rw [stands] at data
      cases data
    refine Context.Regular.addValue joined.regular.context (.inr (by rw [found]; rfl))
      (fun data => (noData data).elim) (fun _ data => (noData data).elim) fun other same => ?_
    cases stands.symm.trans same
    exact denotes

end Step

include consistent firstOrder

/-- However deep evaluations may be nested, evaluation comes to what is meant. -/
theorem evaluateWithin_realizes (ranked : ∀ id thunk, compilation.context.thunk? id = some thunk →
    ∀ source ∈ thunk.sources, rank source < rank id) (budget : Nat) :
    compilation.Realizes rank budget := by
  -- Recipes are carried out with one level less, so what that level realizes is all they need.
  induction budget with
  | zero =>
    exact
      { data := fun closed lower mirrors data place =>
          lookup_meets firstOrder closed lower mirrors data place
            fun _ _ _ => Eval.meets_lost mirrors rfl trivial
        functions := fun _ lower mirrors found =>
          lookup_function lower mirrors found fun _ _ => Eval.meets_lost mirrors rfl trivial }
  | succ budget realizes =>
    refine
      { data := fun closed lower mirrors data place =>
          lookup_meets firstOrder closed lower mirrors data place fun thunk recipe unknown => ?_
        functions := fun closed lower mirrors found =>
          lookup_function lower mirrors found fun thunk recipe =>
            nested_function consistent firstOrder ranked realizes closed lower recipe found
              mirrors }
    rcases place with outer | inner
    · rw [reference_outer outer]
      exact nested_outer consistent firstOrder ranked realizes closed lower recipe data outer
        mirrors
    · exact nested_inner consistent firstOrder ranked realizes closed lower recipe unknown inner
        mirrors

end Nodes

end Compilation

/-- A regular machine outside of all evaluations. -/
structure Machine.Resting (compilation : Compilation) (machine : Machine) : Prop
    extends machine.Regular compilation where
  idle : ∀ id, id ∉ machine.context.inProgress
  unassigned : ∀ id, id ∉ machine.context.rebound

/-- The query hands no function of the program to a function. -/
def Query.Plain (query : Query) : Prop :=
  ∀ callee arguments, query = .callFunction callee arguments → Arguments.Inert arguments

theorem Query.plain_evaluate (id : NodeId) : (evaluate id).Plain :=
  nofun

namespace Compilation

variable {compilation : Compilation} {machine : Machine}

/-- A machine at rest mirrors itself. -/
theorem mirrors_self (resting : machine.Resting compilation) (inside : NodeId → Prop) :
    compilation.Mirrors inside (fun _ => False) machine machine where
  regular := resting.toRegular
  progress id mem := resting.idle id mem
  thunks := resting.context.thunks
  values _ _ := rfl
  rebound _ := Iff.rfl
  assigned id mem := absurd mem (resting.unassigned id)

/-- A step that restores the context leaves the machine at rest, if everything stays regular. -/
theorem resting_of_restored (resting : machine.Resting compilation) {after : Machine}
    (restored : machine.context.Restored after.context) (regular : after.Regular compilation) :
    after.Resting compilation where
  toRegular := regular
  idle id mem := resting.idle id ((restored.inProgress id).1 mem)
  unassigned id mem := resting.unassigned id (restored.rebound ▸ mem)

variable (consistent : compilation.Consistent) (firstOrder : compilation.FirstOrder)

include consistent firstOrder

theorem start_resting : compilation.start.Resting compilation where
  context := Context.Regular.start firstOrder
  closures _ mem := absurd mem (Array.not_mem_empty _)
  idle id mem := by
    rw [start, consistent.context, Registration.inProgress_ofProgram] at mem
    exact Std.TreeSet.not_mem_emptyc mem
  unassigned id mem := by
    rw [start, consistent.context, Registration.rebound_ofProgram] at mem
    exact Std.TreeSet.not_mem_emptyc mem

/-- Evaluation leaves a machine at rest. -/
theorem evaluateWithin_resting (budget : Nat) (id : NodeId) :
    Keeps (Machine.Resting compilation) (compilation.evaluator.evaluateWithin budget id) := by
  obtain ⟨rank, ranked⟩ := firstOrder.ranked
  have realizes := evaluateWithin_realizes consistent firstOrder ranked budget
  refine fun machine resting => ⟨resting_of_restored resting
    ((compilation.evaluator.evaluateWithin_restores budget id).here machine) ?_, fun _ _ => trivial⟩
  cases stands : compilation.function? id with
  | some function =>
    exact (realizes.functions (inside_nothing compilation) (fun _ => False.elim)
      (mirrors_self resting _) stands).kept.1
  | none =>
    by_cases owned : ∃ function, compilation.root.Owns function id
    · obtain ⟨function, owned⟩ := owned
      exact (realizes.data (inside_ownData consistent firstOrder function) (fun _ => False.elim)
        (mirrors_self resting _) stands (.inr ⟨owned, stands⟩)).kept.1
    · exact (realizes.data (inside_nothing compilation) (fun _ => False.elim)
        (mirrors_self resting _) stands
          (.inl (isOuter_iff.2 fun function own => owned ⟨function, own⟩))).kept.1

/-- So does a call, unless it is handed a function. -/
theorem callValue_resting (budget : Nat) (id : NodeId) (callee : Value) {arguments : Arguments}
    (inert : Arguments.Inert arguments) (result : StaticType) :
    Keeps (Machine.Resting compilation) (Call.callValue compilation.evaluator.plan
      compilation.evaluator.limits (compilation.evaluator.evaluateWithin budget) id callee arguments
      result) := by
  obtain ⟨rank, ranked⟩ := firstOrder.ranked
  have realizes := evaluateWithin_realizes consistent firstOrder ranked budget
  intro machine resting
  have restored : machine.Has machine.context.Restored fun _ => True := ⟨.refl _, trivial⟩
  refine ⟨resting_of_restored resting
    (Call.callValue_keeps id callee arguments result machine restored).1.1 ?_, fun _ _ => trivial⟩
  by_cases made : ∃ name declaration serial, callee.content = .closure name declaration serial
  · obtain ⟨name, declaration, serial, content⟩ := made
    rw [Call.callValue_serial _ _ _ id arguments result machine content]
    cases found : machine.session.closures[serial]? with
    | none => exact resting.toRegular
    | some closure =>
      exact (callClosure_meets consistent firstOrder realizes
        (mirrors_self resting fun _ => False) (Array.mem_of_getElem? found) inert).kept.1
  · have other (name : String) (declaration : NodeId) (serial : Nat) :
        callee.content ≠ .closure name declaration serial := fun same =>
      made ⟨name, declaration, serial, same⟩
    obtain ⟨context, closures⟩ := Call.callValue_rest compilation.evaluator.plan
      compilation.evaluator.limits (compilation.evaluator.evaluateWithin budget) id arguments result
      machine other
    refine ⟨?_, ?_⟩ <;> rw [closures]
    · rw [context]
      exact resting.context
    · exact resting.closures

/-- Whatever a program was asked for before, it is at rest, unless functions were handed to
functions. -/
theorem resting_after {queries : List Query} (plain : ∀ query ∈ queries, query.Plain) :
    (compilation.after queries).Resting compilation := by
  refine after_ensures (start_resting consistent firstOrder) fun machine query mem resting =>
    query.ask_ensures (evaluateWithin_resting consistent firstOrder _) (fun id error => ?_)
      (fun callee arguments same => callValue_resting consistent firstOrder _ 0 callee
        (plain query mem callee arguments same) .unit) resting
  exact Step.ensures_modify fun machine resting =>
    { context := resting.context
      closures := resting.closures
      idle := resting.idle
      unassigned := resting.unassigned }

variable {queries : List Query} (plain : ∀ query ∈ queries, query.Plain)

include plain

/-- Whatever was asked before, a node that belongs to no function comes to its meaning. -/
theorem evaluate_means {id : NodeId} (outer : compilation.isOuter id = true)
    (data : compilation.function? id = none) :
    Approximates (compilation.evaluator.evaluate id (compilation.after queries)).1
      (compilation.meaningOf (.node id)) := by
  obtain ⟨rank, ranked⟩ := firstOrder.ranked
  have meets := (evaluateWithin_realizes consistent firstOrder ranked
    compilation.evaluator.limits.depth).data (inside_nothing compilation) (fun _ => False.elim)
    (mirrors_self (resting_after consistent firstOrder plain) _) data (.inl outer)
  refine meets.ends.imp_right fun ends => ?_
  rw [reference_outer outer, Eval.ofExcept_apply] at ends
  exact ends.2.eq fun _ _ => And.left

/-- Whatever was asked before, what stands for a function comes to a function value of it. -/
theorem evaluate_function {id : NodeId} {function : Node}
    (stands : compilation.function? id = some function) :
    let ran := compilation.evaluator.evaluate id (compilation.after queries)
    Fails EvalError.IsDepth ran.1 ∨
      ∃ value, ran.1 = .ok value ∧ value.Denotes ran.2.session.closures function := by
  obtain ⟨rank, ranked⟩ := firstOrder.ranked
  intro ran
  have meets := (evaluateWithin_realizes consistent firstOrder ranked
    compilation.evaluator.limits.depth).functions (inside_nothing compilation) (fun _ => False.elim)
    (mirrors_self (resting_after consistent firstOrder plain) _) stands
  refine meets.ends.imp_right fun ⟨_, corresponds⟩ => ?_
  replace corresponds : Corresponds (fun value _ => value.Denotes ran.2.session.closures function)
    ran.1 (.ok ()) := corresponds
  cases outcome : ran.1 with
  | error error =>
    rw [outcome] at corresponds
    exact corresponds.elim
  | ok value =>
    rw [outcome] at corresponds
    exact ⟨value, rfl, corresponds⟩

/-- Whatever was asked before, and wherever the function value was made, a call comes to what it
means. -/
theorem callClosure_means {closure : Closure}
    (made : closure ∈ (compilation.after queries).session.closures) {arguments : Arguments}
    (inert : Arguments.Inert arguments) (budget : Nat) {machine : Machine}
    (same : machine.session.closures = (compilation.after queries).session.closures) :
    Approximates (Call.callClosure compilation.evaluator.plan compilation.evaluator.limits
        (compilation.evaluator.evaluateWithin budget) closure arguments machine).1
      (compilation.answerCall compilation.meaningOf closure.declaration arguments) := by
  obtain ⟨rank, ranked⟩ := firstOrder.ranked
  have resting := resting_after consistent firstOrder plain
  -- The outcome depends on the session only, so the context may be that of the program.
  have mirrors : compilation.Mirrors (fun _ => False) (fun _ => False)
      ⟨(compilation.after queries).context, machine.session⟩ (compilation.after queries) :=
    (mirrors_self resting _).continue_ (same ▸ .refl _) (same ▸ resting.closures)
  have meets := callClosure_meets consistent firstOrder
    (evaluateWithin_realizes consistent firstOrder ranked budget) mirrors
    (show closure ∈ machine.session.closures from same ▸ made) inert
  rw [Call.callClosure_fst]
  refine meets.ends.imp ?_ fun ends => ?_
  · rw [Call.callClosure_fst]
    exact id
  · rw [Call.callClosure_fst, Eval.ofExcept_apply] at ends
    exact ends.2.eq fun _ _ => And.left

end Compilation

end DeclLang
