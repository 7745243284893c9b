import DeclLang.Proofs.MeantOutcomes

/-!
# Calls are isolated

**Input.**  A compiled program, a function in it, and two values of the function, which may have
been made anywhere.

**Condition.**  Either the function refers to itself only, or functions of the program are only
called, and assign only what is renewed in every call: their parameters and their variables with an
initializer.  The second condition allows functions to call themselves and each other.

**Results.**
* `Compilation.callClosure_isolated`: calls with the same arguments have the same outcome, and no
  variable without an initializer has a value when the body starts.
* `Compilation.leftoverSlot_kept`: a function that assigns a variable without an initializer and
  calls itself meets neither condition, and sees what the calling activation assigned.
-/

namespace DeclLang

open Inference (reached)

namespace Compilation

variable {compilation : Compilation}

/-- In a program whose functions are only called, a variable without an initializer has no value
when the body starts, unless it is a parameter. -/
theorem frame_uninitialized (consistent : compilation.Consistent) {made : Array Closure}
    {closure : Closure} (regular : closure.Regular compilation made) {id : NodeId} {name : String}
    {type? : Option Node}
    (mem : (some closure.declaration, Node.mk id (.variableDecl name type? none)) ∈
      reached none compilation.root)
    (bound : ∀ parameter ∈ Call.parametersOf closure.declaration, parameter.1.id ≠ id)
    (values : List Value) (evaluator : Evaluator) (budget : Nat) (session : Session) :
    (evaluator.evaluateWithin budget id
      ⟨closure.frame compilation.evaluator.plan values, session⟩).1 =
        .error (.missingValue id) := by
  obtain ⟨unknown, recipe⟩ := entry_uninitialized consistent mem
  have other : id ∉ Call.parameterIds closure.declaration := fun among =>
    have ⟨parameter, declared, same⟩ := List.mem_map.1 among
    bound parameter declared same
  have free : ¬compilation.Binds id := fun binds =>
    other (mem_parameterIds_of_binds consistent ⟨_, mem, rfl⟩ binds)
  exact Closure.frame_missing ((regular.base.thunk? id).trans recipe)
    ((regular.base.kept id recipe free).trans unknown) (regular.map_id_parameters ▸ other) _ values
    evaluator budget session

/-- The outcome of a call does not depend on where the function value was made, nor on what was
evaluated before the call: for a function that refers to itself only, and, unless evaluations are
nested too deeply, in a program whose functions are only called and assign only what is renewed in
every call.  Whoever calls, a variable without an initializer has no value when the body starts,
unless it is a parameter. -/
theorem callClosure_isolated {options : Options} {root : Node} {focus : Option NodeId}
    {before reports : Reports} {compilation : Compilation}
    (compiled : ofTree options root focus before = (.ok compilation, reports))
    {queries others : List Query} {closure other : Closure}
    (made : closure ∈ (compilation.after queries).session.closures)
    (madeOther : other ∈ (compilation.after others).session.closures)
    (same : closure.declaration.id = other.declaration.id)
    {arguments argumentsOther : Arguments}
    (received : Call.receive closure.slots arguments = Call.receive other.slots argumentsOther) :
    (compilation.SelfContained closure.declaration → ∀ (limits : Limits) (budget budgetOther : Nat),
      closure.declaration.preorder.length ≤ budget →
      closure.declaration.preorder.length ≤ budgetOther → ∀ machine machineOther : Machine,
        (Call.callClosure compilation.evaluator.plan limits
            (compilation.evaluator.evaluateWithin budget) closure arguments machine).1 =
          (Call.callClosure compilation.evaluator.plan limits
            (compilation.evaluator.evaluateWithin budgetOther) other argumentsOther
              machineOther).1) ∧
    (compilation.FirstOrder → (∀ query ∈ queries ++ others, query.Plain) → arguments.Inert →
      argumentsOther.Inert → ∀ (budget budgetOther : Nat) (machine machineOther : Machine),
        machine.session.closures = (compilation.after queries).session.closures →
        machineOther.session.closures = (compilation.after others).session.closures →
          let outcome := (Call.callClosure compilation.evaluator.plan compilation.evaluator.limits
            (compilation.evaluator.evaluateWithin budget) closure arguments machine).1
          let outcomeOther := (Call.callClosure compilation.evaluator.plan
            compilation.evaluator.limits (compilation.evaluator.evaluateWithin budgetOther) other
            argumentsOther machineOther).1
          outcome = outcomeOther ∨ Fails EvalError.IsDepth outcome ∨
            Fails EvalError.IsDepth outcomeOther) ∧
    (compilation.SelfContained closure.declaration ∨
        compilation.FirstOrder ∧ (∀ query ∈ queries, query.Plain) →
      ∀ id name type?, (some closure.declaration, Node.mk id (.variableDecl name type? none)) ∈
          reached none compilation.root →
        (∀ parameter ∈ Call.parametersOf closure.declaration, parameter.1.id ≠ id) →
        ∀ (values : List Value) (read : Nat) (session : Session),
          (compilation.evaluator.evaluateWithin read id
            ⟨closure.frame compilation.evaluator.plan values, session⟩).1 =
              .error (.missingValue id)) := by
  have consistent := consistent_of_ofTree compiled
  have equal : other.declaration = closure.declaration := by
    obtain ⟨_, place⟩ := ((faithful_after consistent queries).2 closure made).place
    obtain ⟨_, placeOther⟩ := ((faithful_after consistent others).2 other madeOther).place
    exact Node.eq_of_id_eq consistent.distinct (Inference.mem_preorder_of_mem_reached placeOther)
      (Inference.mem_preorder_of_mem_reached place) same.symm
  refine ⟨fun contained limits budget budgetOther enough enoughOther machine machineOther => ?_,
    fun firstOrder plain inert inertOther budget budgetOther machine machineOther session
      sessionOther => ?_, fun condition id name type? mem bound values read session => ?_⟩
  · exact ((pristine_after consistent contained queries).2 closure made).callClosure_eq consistent
      contained ((pristine_after consistent contained others).2 other madeOther) rfl equal received
      limits enough enoughOther machine machineOther
  · have plainFirst : ∀ query ∈ queries, query.Plain := fun query mem =>
      plain query (List.mem_append_left _ mem)
    have plainOther : ∀ query ∈ others, query.Plain := fun query mem =>
      plain query (List.mem_append_right _ mem)
    have regular := (resting_after consistent firstOrder plainFirst).closures closure made
    have regularOther := (resting_after consistent firstOrder plainOther).closures other madeOther
    have answered : compilation.answerCall compilation.meaningOf closure.declaration arguments =
        compilation.answerCall compilation.meaningOf other.declaration argumentsOther := by
      unfold answerCall
      rw [regular.slots_eq, received, ← regularOther.slots_eq, equal]
    rcases callClosure_means consistent firstOrder plainFirst made inert budget session with
      deep | means
    · exact .inr (.inl deep)
    rcases callClosure_means consistent firstOrder plainOther madeOther inertOther budgetOther
      sessionOther with deep | meansOther
    · exact .inr (.inr deep)
    · exact .inl ((means.trans answered).trans meansOther.symm)
  · rcases condition with contained | ⟨firstOrder, plain⟩
    · exact ((pristine_after consistent contained queries).2 closure made).frame_unassigned
        consistent mem bound values compilation.evaluator read session
    · exact frame_uninitialized consistent
        ((resting_after consistent firstOrder plain).closures closure made) mem bound values
        compilation.evaluator read session

/-- A function that sets a variable only if it is told so. -/
def chooser : Node :=
  .mk 1 (.functionDecl "choose" []
    [.mk 2 (.parameter "set" (.mk 3 (.typeName "Boolean" [])) none)]
    (.mk 4 (.typeName "String" []))
    [.mk 5 (.variableDecl "slot" (some (.mk 6 (.typeName "String" []))) none),
      .mk 7 (.branch (.mk 8 (.identifier "set"))
        [.mk 9 (.expressionStatement (.mk 10 (.assignment (.mk 11 (.identifier "slot"))
          (.mk 12 (.literal (.string "set"))))))]),
      .mk 13 (.returnStatement (some (.mk 14 (.identifier "slot"))))])

/-- Another function calls it. -/
def guardedSlot : Node :=
  .mk 0 (.program
    [chooser,
      .mk 15 (.functionDecl "forward" [] [] (.mk 16 (.typeName "String" []))
        [.mk 17 (.returnStatement (some (.mk 18 (.call (.mk 19 (.identifier "choose"))
          [.mk 20 (.argument none (.mk 21 (.literal (.boolean true))))]))))]),
      .mk 22 (.variableDecl "result" none (some (.mk 23 (.call (.mk 24 (.identifier "forward"))
        []))))])

theorem chooser_reached : (none, chooser) ∈ reached none guardedSlot :=
  Inference.mem_reached_of_visited (Inference.self_mem_reached none _) List.mem_cons_self

/-- A function that assigns its variable and calls itself, if it is told so; and calls of it. -/
def slotReader (slot : Node) : Node :=
  .mk 0 (.program
    [.mk 1 (.functionDecl "read" []
        [.mk 2 (.parameter "again" (.mk 3 (.typeName "Boolean" [])) none)]
        (.mk 4 (.typeName "String" []))
        [slot,
          .mk 7 (.branch (.mk 8 (.identifier "again"))
            [.mk 9 (.expressionStatement (.mk 10 (.assignment (.mk 11 (.identifier "slot"))
                (.mk 12 (.literal (.string "left")))))),
              .mk 13 (.returnStatement (some (.mk 14 (.call (.mk 15 (.identifier "read"))
                [.mk 16 (.argument none (.mk 17 (.literal (.boolean false))))]))))]),
          .mk 18 (.returnStatement (some (.mk 19 (.identifier "slot"))))]),
      .mk 20 (.variableDecl "direct" none (some (.mk 21 (.call (.mk 22 (.identifier "read"))
        [.mk 23 (.argument none (.mk 24 (.literal (.boolean false))))])))),
      .mk 25 (.variableDecl "inner" none (some (.mk 26 (.call (.mk 27 (.identifier "read"))
        [.mk 28 (.argument none (.mk 29 (.literal (.boolean true))))]))))])

/-- The variable has an initializer. -/
def renewedSlot : Node :=
  slotReader (.mk 5 (.variableDecl "slot" none (some (.mk 6 (.literal (.string "fresh"))))))

theorem receive_boolean {closure : Closure} (one : closure.parameters.length = 1) (b : Bool) :
    Call.receive closure.slots [(none, some (.boolean b))] = .ok [.boolean b] := by
  have given : closure.Given ([Value.boolean b].map fun value => (none, some value))
      [Value.boolean b] := Closure.given_positional one
  exact Call.receive_of_given given

/-- The function is made at top level as well as in a call of the other function. -/
theorem guardedSlot_made :
    ∃ compilation reports closure other,
      ofTree {} guardedSlot none {} = (.ok compilation, reports) ∧
      closure ∈ (compilation.after [.evaluate 1]).session.closures ∧
      other ∈ (compilation.after [.evaluate 22]).session.closures ∧
      closure.declaration = chooser ∧ other.declaration.id = 1 ∧
      closure.parameters.length = 1 ∧ other.parameters.length = 1 ∧
      compilation.SelfContained chooser := by
  have checked : ((ofTree {} guardedSlot none {}).1.toOption.bind fun compilation =>
      (compilation.after [.evaluate 1]).session.closures[0]?.bind fun closure =>
        (compilation.after [.evaluate 22]).session.closures[1]?.bind fun other =>
          some (closure.declaration.id == 1 && other.declaration.id == 1 &&
            closure.parameters.length == 1 && other.parameters.length == 1 &&
            compilation.isSelfContained 1)) = some true := by
    decide +kernel
  obtain ⟨compilation, compiled, holds⟩ := compiled_of_toOption checked
  obtain ⟨closure, made, holds⟩ := Option.bind_eq_some_iff.1 holds
  obtain ⟨other, madeOther, holds⟩ := Option.bind_eq_some_iff.1 holds
  simp only [Option.some.injEq, Bool.and_eq_true, beq_iff_eq] at holds
  obtain ⟨⟨⟨⟨same, sameOther⟩, one⟩, oneOther⟩, contained⟩ := holds
  have made := Array.mem_of_getElem? made
  have consistent := consistent_of_ofTree compiled
  have within : chooser ∈ compilation.root.preorder := by
    rw [root_of_ofTree compiled]
    exact Inference.mem_preorder_of_mem_reached chooser_reached
  obtain ⟨_, place⟩ := ((faithful_after consistent _).2 closure made).place
  have own : closure.declaration = chooser :=
    Node.eq_of_id_eq consistent.distinct (Inference.mem_preorder_of_mem_reached place) within same
  exact ⟨compilation, _, closure, other, compiled, made, Array.mem_of_getElem? madeOther, own,
    sameOther, one, oneOther, selfContained_of_isSelfContained consistent within contained⟩

/-- The function is made at top level as well as in a call of itself, and calls of both answer. -/
theorem renewedSlot_made :
    ∃ compilation reports closure other,
      ofTree {} renewedSlot none {} = (.ok compilation, reports) ∧
      (compilation.after [.evaluate 20]).session.closures[0]? = some closure ∧
      (compilation.after [.evaluate 25]).session.closures[1]? = some other ∧
      closure.declaration.id = 1 ∧ other.declaration.id = 1 ∧
      closure.parameters.length = 1 ∧ other.parameters.length = 1 ∧
      compilation.FirstOrder ∧
      (Call.callClosure compilation.evaluator.plan compilation.evaluator.limits
        (compilation.evaluator.evaluateWithin 20) closure [(none, some (.boolean false))]
        (compilation.after [.evaluate 20])).1.isOk ∧
      (Call.callClosure compilation.evaluator.plan compilation.evaluator.limits
        (compilation.evaluator.evaluateWithin 20) other [(none, some (.boolean false))]
        (compilation.after [.evaluate 25])).1.isOk := by
  have checked : ((ofTree {} renewedSlot none {}).1.toOption.bind fun compilation =>
      (compilation.after [.evaluate 20]).session.closures[0]?.bind fun closure =>
        (compilation.after [.evaluate 25]).session.closures[1]?.bind fun other =>
          some (closure.declaration.id == 1 && other.declaration.id == 1 &&
            closure.parameters.length == 1 && other.parameters.length == 1 &&
            compilation.isFirstOrder &&
            (Call.callClosure compilation.evaluator.plan compilation.evaluator.limits
              (compilation.evaluator.evaluateWithin 20) closure [(none, some (.boolean false))]
              (compilation.after [.evaluate 20])).1.isOk &&
            (Call.callClosure compilation.evaluator.plan compilation.evaluator.limits
              (compilation.evaluator.evaluateWithin 20) other [(none, some (.boolean false))]
              (compilation.after [.evaluate 25])).1.isOk)) = some true := by
    decide +kernel
  obtain ⟨compilation, compiled, holds⟩ := compiled_of_toOption checked
  obtain ⟨closure, made, holds⟩ := Option.bind_eq_some_iff.1 holds
  obtain ⟨other, madeOther, holds⟩ := Option.bind_eq_some_iff.1 holds
  simp only [Option.some.injEq, Bool.and_eq_true, beq_iff_eq] at holds
  obtain ⟨⟨⟨⟨⟨⟨same, sameOther⟩, one⟩, oneOther⟩, firstOrder⟩, fine⟩, fineOther⟩ := holds
  exact ⟨compilation, _, closure, other, compiled, made, madeOther, same, sameOther, one, oneOther,
    firstOrder_of_isFirstOrder (consistent_of_ofTree compiled) firstOrder, fine, fineOther⟩

/-- Whether the variable was set is told by the argument alone, at top level and in a call of the
other function; it has no value when the body starts.  In an activation that another activation of
the same function has called, a variable with an initializer is initialized anew. -/
theorem callClosure_isolated_slots :
    (∃ compilation reports closure other,
      ofTree {} guardedSlot none {} = (.ok compilation, reports) ∧
      closure ∈ (compilation.after [.evaluate 1]).session.closures ∧
      other ∈ (compilation.after [.evaluate 22]).session.closures ∧
      compilation.SelfContained closure.declaration ∧
      ∀ (b : Bool) (machine machineOther : Machine),
        (Call.callClosure compilation.evaluator.plan {}
            (compilation.evaluator.evaluateWithin 14) closure [(none, some (.boolean b))]
            machine).1 =
          (Call.callClosure compilation.evaluator.plan {}
            (compilation.evaluator.evaluateWithin 14) other [(none, some (.boolean b))]
            machineOther).1 ∧
        (compilation.evaluator.evaluateWithin 14 5
          ⟨closure.frame compilation.evaluator.plan [.boolean b], machine.session⟩).1 =
            .error (.missingValue 5)) ∧
    ∃ compilation reports closure other,
      ofTree {} renewedSlot none {} = (.ok compilation, reports) ∧
      (compilation.after [.evaluate 20]).session.closures[0]? = some closure ∧
      (compilation.after [.evaluate 25]).session.closures[1]? = some other ∧
      compilation.FirstOrder ∧
      (Call.callClosure compilation.evaluator.plan compilation.evaluator.limits
          (compilation.evaluator.evaluateWithin 20) closure [(none, some (.boolean false))]
          (compilation.after [.evaluate 20])).1 =
        (Call.callClosure compilation.evaluator.plan compilation.evaluator.limits
          (compilation.evaluator.evaluateWithin 20) other [(none, some (.boolean false))]
          (compilation.after [.evaluate 25])).1 := by
  constructor
  · obtain ⟨compilation, reports, closure, other, compiled, made, madeOther, own, sameOther, one,
      oneOther, contained⟩ := guardedSlot_made
    rw [← own] at contained
    have enough : closure.declaration.preorder.length ≤ 14 := by
      rw [own]
      decide +kernel
    refine ⟨compilation, reports, closure, other, compiled, made, madeOther, contained,
      fun b machine machineOther => ?_⟩
    obtain ⟨equal, -, fresh⟩ := callClosure_isolated compiled made madeOther
      (by rw [own, sameOther]; rfl)
      ((receive_boolean one b).trans (receive_boolean oneOther b).symm)
    refine ⟨equal contained {} 14 14 enough enough machine machineOther, ?_⟩
    have slot := reached_statement chooser_reached List.mem_cons_self
    rw [← root_of_ofTree compiled, ← own] at slot
    refine fresh (.inl contained) 5 "slot" _ slot ?_ [.boolean b] 14 machine.session
    rw [own]
    decide +kernel
  · obtain ⟨compilation, reports, closure, other, compiled, made, madeOther, same, sameOther, one,
      oneOther, firstOrder, fine, fineOther⟩ := renewedSlot_made
    have plain : ∀ query ∈ [Query.evaluate 20] ++ [.evaluate 25], query.Plain :=
      List.forall_mem_cons.2 ⟨Query.plain_evaluate 20,
        List.forall_mem_cons.2 ⟨Query.plain_evaluate 25, nofun⟩⟩
    have inert : Arguments.Inert [(none, some (.boolean false))] := by
      rintro argument (_ | ⟨_, mem⟩) value same
      · cases same
        rfl
      · cases mem
    refine ⟨compilation, reports, closure, other, compiled, made, madeOther, firstOrder, ?_⟩
    obtain ⟨-, isolated, -⟩ := callClosure_isolated compiled (Array.mem_of_getElem? made)
      (Array.mem_of_getElem? madeOther) (same.trans sameOther.symm)
      ((receive_boolean one false).trans (receive_boolean oneOther false).symm)
    rcases isolated firstOrder plain inert inert 20 20 _ _ rfl rfl with equal | deep | deep
    · exact equal
    · exact absurd deep (not_fails_of_isOk fine)
    · exact absurd deep (not_fails_of_isOk fineOther)

/-- The variable has no initializer. -/
def leftoverSlot : Node :=
  slotReader (.mk 5 (.variableDecl "slot" (some (.mk 6 (.typeName "String" []))) none))

/-- A function that calls itself does not refer to itself only: with the argument `false` its
variable has no value at top level, but in a call from itself it has the value that was assigned
around that call. -/
theorem leftoverSlot_kept :
    ((ofTree {} leftoverSlot none {}).1.toOption.map fun compilation =>
      (compilation.evaluator.evaluate 20 compilation.start).1.map Value.text?) =
        some (.error (.missingValue 5)) ∧
    ((ofTree {} leftoverSlot none {}).1.toOption.map fun compilation =>
      (compilation.evaluator.evaluate 25 compilation.start).1.map Value.text?) =
        some (.ok (some "left")) := by
  decide +kernel

end Compilation

end DeclLang
