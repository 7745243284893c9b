import DeclLang.Proofs.MirroredFrames

/-!
# Calls come to what they mean

**Input.**  A compiled program whose functions are only called, and two machines that mirror each
other.

**Assumption.**  `Compilation.Realizes`: evaluation of a node that belongs to no function comes to
its meaning, and in an activation of a function it has the outcome that comes of the answers to
other demands; or evaluations are nested too deeply.

**Results.**
* `Compilation.callClosure_meets`: then a call comes to what it means, wherever the function value
  was made.
* `Compilation.consider_meets`: and what is computed for a recipe is what comes of its sources.
-/

namespace DeclLang

open Inference (reached)

namespace Call

variable (plan : Plan) (limits : Limits) (evaluate : NodeId → Eval Value) (id : NodeId)
  (arguments : Arguments) (result : StaticType) (machine : Machine)

/-- A function value of the program is looked up among those made so far. -/
theorem callValue_serial {callee : Value} {name : String} {declaration : NodeId} {serial : Nat}
    (content : callee.content = .closure name declaration serial) :
    callValue plan limits evaluate id callee arguments result machine =
      match machine.session.closures[serial]? with
      | some closure => callClosure plan limits evaluate closure arguments machine
      | none => (.error (.missingValue declaration), machine) := by
  obtain ⟨type, own⟩ := callee
  cases content
  have current : (get : Eval Machine) machine = (.ok machine, machine) := rfl
  unfold callValue
  dsimp only [Value.content_mk]
  rw [Step.bind_ok current]
  cases machine.session.closures[serial]? <;> rfl

/-- Calling anything else leaves the context and the function values as they are. -/
theorem callValue_rest {callee : Value}
    (other : ∀ name declaration serial, callee.content ≠ .closure name declaration serial) :
    let after := (callValue plan limits evaluate id callee arguments result machine).2
    after.context = machine.context ∧ after.session.closures = machine.session.closures := by
  obtain ⟨type, content⟩ := callee
  unfold callValue
  cases content with
  | builtin path =>
    dsimp only [Value.content_mk]
    cases Builtin.call path (arguments.filterMap Prod.snd) <;> exact ⟨rfl, rfl⟩
  | recordConstructor record fields =>
    dsimp only [Value.content_mk]
    cases receive fields arguments <;> exact ⟨rfl, rfl⟩
  | closure name declaration serial => exact absurd rfl (other name declaration serial)
  | _ => exact ⟨rfl, rfl⟩

end Call

namespace Compilation

variable {compilation : Compilation}

section

variable (compilation) (rank : NodeId → Nat)

/-- What evaluation does with the recipe of a node, when further evaluations may be nested. -/
abbrev carryOut (budget : Nat) (id : NodeId) (thunk : Thunk) : Eval Value := do
  let values ← thunk.dependencies.mapM (compilation.evaluator.evaluateWithin budget)
  Call.follow compilation.evaluator.plan compilation.evaluator.limits
    (compilation.evaluator.evaluateWithin budget) id thunk.recipe values

/-- With such a budget, evaluation comes to what is meant, and finds the functions that nodes stand
for. -/
structure Realizes (budget : Nat) : Prop where
  data : ∀ {inside busy : NodeId → Prop} {id : NodeId} {left right : Machine},
    compilation.Inside inside → (∀ other, busy other → rank id < rank other) →
      compilation.Mirrors inside busy left right → compilation.function? id = none →
        compilation.isOuter id = true ∨ inside id →
          compilation.Agree inside busy left right
            (compilation.evaluator.evaluateWithin budget id)
            (compilation.reference compilation.meaningOf (budget + 1) id)
  functions : ∀ {inside busy : NodeId → Prop} {id : NodeId} {left right : Machine}
    {function : Node}, compilation.Inside inside →
      (∀ other, busy other → rank id < rank other) →
        compilation.Mirrors inside busy left right → compilation.function? id = some function →
          compilation.Finds inside busy function left right
            (compilation.evaluator.evaluateWithin budget id)

end

/-- An inquiry comes to what the answers to it make of it. -/
theorem consult_meets {inside busy among : NodeId → Prop} {evaluate again : NodeId → Eval Value}
    (each : ∀ source, among source → ∀ left right, compilation.Mirrors inside busy left right →
      compilation.Agree inside busy left right (evaluate source) (again source))
    (plan : Plan) (limits : Limits) (id : NodeId) {inquiry : Inquiry}
    (within : inquiry.Within among) (inert : inquiry.Inert) {left right : Machine}
    (mirrors : compilation.Mirrors inside busy left right) :
    compilation.Agree inside busy left right
      (inquiry.perform plan limits evaluate id) (inquiry.consult again) := by
  induction inquiry generalizing left right with
  | answer outcome => exact Eval.meets_ofExcept mirrors fun value same => ⟨rfl, inert value same⟩
  | call callee arguments result =>
    have native := (Call.callValue_native plan limits evaluate id inert.1 arguments result left).1
    have other (name : String) (declaration : NodeId) (serial : Nat) :
        callee.content ≠ .closure name declaration serial := by
      rintro same
      obtain ⟨type, content⟩ := callee
      cases same
      cases inert.1
    have rest := Call.callValue_rest plan limits evaluate id arguments result left other
    generalize ran : Call.callValue plan limits evaluate id callee arguments result left = done
      at native rest
    obtain ⟨outcome, ⟨context, session⟩⟩ := done
    obtain ⟨rfl, closures⟩ : context = left.context ∧ session.closures = left.session.closures :=
      rest
    subst native
    have grown : Grown left.session.closures session.closures := closures ▸ .refl _
    have joined : compilation.Mirrors inside busy ⟨left.context, session⟩ right :=
      mirrors.continue_ grown (closures ▸ mirrors.regular.closures)
    refine ⟨?_, ?_, .inr ?_⟩ <;> rw [Inquiry.perform, ran]
    · exact grown
    · exact ⟨joined.regular, joined.progress⟩
    · rw [Inquiry.consult, Eval.ofExcept_apply]
      refine ⟨joined, ?_⟩
      cases given : Call.native callee arguments result with
      | ok value => exact ⟨rfl, Call.native_inert inert.1 inert.2 given⟩
      | error error => rfl
  | ask source next ih =>
    refine (each source within.1 _ _ mirrors).bind fun after later value other joined _ given => ?_
    obtain ⟨rfl, own⟩ := given
    exact ih value (within.2 value) (inert value own) joined

variable (consistent : compilation.Consistent) (firstOrder : compilation.FirstOrder)

section Calls

variable {rank : NodeId → Nat} {budget : Nat} (realizes : compilation.Realizes rank budget)
  {inside busy : NodeId → Prop} {left right : Machine}

include consistent firstOrder realizes

/-- The body of a function is executed like in a frame before anything was evaluated. -/
theorem executeBody_meets {function? : Option Node} {function : Node}
    (place : (function?, function) ∈ reached none compilation.root)
    (mirrors : compilation.Mirrors (compilation.OwnData function) (fun _ => False) left right) :
    Eval.Meets (compilation.mirrors (compilation.OwnData function) fun _ => False) left right
      (Statement.executeBlock compilation.evaluator.plan compilation.evaluator.limits
        (compilation.evaluator.evaluateWithin budget) (Call.bodyOf function) [])
      (Statement.executeBlock compilation.evaluator.plan compilation.evaluator.limits
        (compilation.reference compilation.meaningOf (budget + 1)) (Call.bodyOf function) [])
      fun _ _ => Statement.EndsAlike (fun value => value.inert = true) fun _ => True := by
  have inside := inside_ownData consistent firstOrder function
  have shared : Statement.Shared
      (compilation.mirrors (compilation.OwnData function) fun _ => False)
      compilation.evaluator.plan (fun value => value.inert = true)
      (compilation.evaluator.evaluateWithin budget)
      (compilation.reference compilation.meaningOf (budget + 1)) (compilation.OwnData function)
      (fun _ => True) (compilation.root.Owns function) :=
    { toTurns := compilation.turns_mirrors _ _
      unit := rfl
      evaluates := fun id mem left right joined =>
        (realizes.data inside (fun _ none => none.elim) joined mem.2 (.inr mem)).imp
          fun _ _ _ _ _ given => ⟨given.1, given.2⟩
      settles := fun affected pending left right planned waiting joined => by
        rw [firstOrder.settle_idle planned, firstOrder.settle_idle planned]
        exact Eval.meets_pure joined ⟨rfl, waiting⟩
      assigns := fun place target value left right own planned inert joined => by
        obtain ⟨data, recipe, owner, owns, ownsToo⟩ := firstOrder.assigned place target planned
        obtain rfl := owner_unique consistent owns own
        exact Compilation.Mirrors.rebind joined ⟨ownsToo, data⟩
          ⟨isOuter_eq_false ownsToo, data, recipe⟩ inert }
  refine Statement.executeBlock_meets shared (fun statement mem => ?_) (fun _ _ => trivial) mirrors
  refine Statement.runs_of_operands (fun node mem other operand among below => ?_)
    (fun _ _ => trivial) (fun node mem => ⟨node, mem, rfl⟩) (reached_statement place mem)
  exact ⟨⟨operand, below, rfl⟩, firstOrder.operands _ mem other operand among⟩

/-- A call comes to what it means. -/
theorem callClosure_meets (mirrors : compilation.Mirrors inside busy left right)
    {closure : Closure} (mem : closure ∈ left.session.closures) {arguments : Arguments}
    (inert : Arguments.Inert arguments) :
    compilation.Agree inside busy left right
      (Call.callClosure compilation.evaluator.plan compilation.evaluator.limits
        (compilation.evaluator.evaluateWithin budget) closure arguments)
      (Eval.ofExcept
        (compilation.answerCall compilation.meaningOf closure.declaration arguments)) := by
  have regular := mirrors.regular.closures closure mem
  obtain ⟨function?, place⟩ := regular.place
  unfold answerCall
  rw [regular.slots_eq]
  cases received : Call.receive closure.slots arguments with
  | error error =>
    refine (Eval.meets_throw mirrors error).congr ?_ rfl
    rw [Call.callClosure_eq, received]
    rfl
  | ok values =>
    have length : values.length = closure.parameters.length :=
      (Call.length_of_receive received).trans (List.length_map _)
    have none_ : ∀ slot ∈ closure.slots, ∀ value, slot.2 = some value → value.inert = true := by
      intro slot among value same
      rw [← regular.slots_eq] at among
      obtain ⟨parameter, given, rfl⟩ := List.mem_map.1 among
      obtain ⟨declared, -, rfl⟩ := List.mem_map.1 given
      cases same
    obtain ⟨continues, kept, ends⟩ := executeBody_meets consistent firstOrder realizes place
      (mirrors_frame consistent firstOrder regular mirrors.regular.closures length
        (Call.receive_inert none_ inert received))
    have ran := Call.callClosure_apply compilation.evaluator.plan compilation.evaluator.limits
      (compilation.evaluator.evaluateWithin budget) received left
    -- The outcome of the body is that of the activation, which is the meaning of the call.
    have activated : compilation.Agree inside busy left right
        (Call.callClosure compilation.evaluator.plan compilation.evaluator.limits
          (compilation.evaluator.evaluateWithin budget) closure arguments)
        (Eval.ofExcept (compilation.activate compilation.meaningOf (budget + 1)
          closure.declaration values)) := by
      refine ⟨?_, ?_, ?_⟩ <;> rw [ran]
      · exact continues
      · exact ⟨⟨mirrors.regular.context.grow continues, kept.1.closures⟩, mirrors.progress⟩
      · rcases ends with ⟨error, failed, lost⟩ | ⟨-, corresponds⟩
        · rw [failed]
          exact .inl ⟨error, rfl, lost⟩
        · rw [Eval.ofExcept_apply]
          refine .inr ⟨mirrors.continue_ continues kept.1.closures, corresponds.map ?_⟩
          rintro flow other ⟨rfl, ends⟩
          cases flow with
          | next pending => exact ⟨rfl, rfl⟩
          | returned value => exact ⟨rfl, ends⟩
    exact activated.improve (fun _ => id)
      (firstOrder.activate_means (budget + 1) closure.declaration values)

/-- A recipe comes to what its sources make of it. -/
theorem consider_meets {id : NodeId} {thunk : Thunk} {again : NodeId → Eval Value}
    (found : compilation.context.thunk? id = some thunk) (data : compilation.function? id = none)
    (each : ∀ source ∈ compilation.dataOf thunk, ∀ left right,
      compilation.Mirrors inside busy left right →
        compilation.Agree inside busy left right
          (compilation.evaluator.evaluateWithin budget source) (again source))
    (callees : ∀ source ∈ thunk.sources, ∀ function,
      compilation.function? source = some function → ∀ left right,
        compilation.Mirrors inside busy left right →
          compilation.Finds inside busy function left right
            (compilation.evaluator.evaluateWithin budget source))
    (mirrors : compilation.Mirrors inside busy left right) :
    compilation.Agree inside busy left right (compilation.carryOut budget id thunk)
      (compilation.consider compilation.meaningOf again id thunk) := by
  have recipe := (firstOrder.recipes id thunk found data).1
  unfold dataOf at each
  unfold consider carryOut
  split
  · rename_i function sources slots called
    rw [called] at each
    obtain ⟨result, callee, rfl, stands⟩ := callOf?_inv called
    dsimp only
    rw [List.mapM_cons, bind_assoc, ← pure_bind () fun _ => sources.mapM again >>= _]
    refine (callees callee List.mem_cons_self function stands _ _ mirrors).bind
      fun after later value _ joined _ denotes => ?_
    rw [bind_assoc]
    refine (Eval.meets_mapM each joined).bind fun last final values others joined grown given => ?_
    obtain ⟨rfl, inert⟩ := given
    obtain ⟨name, serial, closure, content, own, rfl⟩ := denotes.grow grown
    refine (callClosure_meets consistent firstOrder realizes joined
      (Array.mem_of_getElem? own) (Call.distribute_inert inert)).congr ?_ rfl
    rw [pure_bind]
    exact (Call.callValue_serial _ _ _ id _ result last content).trans (by rw [own])
  · rename_i other
    rw [other] at each
    rw [← Thunk.perform_inquiry _ _ _ id recipe]
    exact consult_meets each _ _ id (Thunk.inquiry_within (fun _ mem => mem) id)
      (Thunk.inquiry_inert recipe id) mirrors

end Calls

end Compilation

end DeclLang
