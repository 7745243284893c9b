import DeclLang.Proofs.MeantOutcomes

/-!
# The order of queries

**Input.**  A compiled program, a node of it, and two sequences of queries.

**Condition.**  Either the node belongs to a region of data, which needs no call of a function; or
functions of the program are only called, and assign only what is renewed in every call, and the
node belongs to none of them.

**Results.**
* `Compilation.evaluate_orderIndependent`: then the answer for the node is the same after both
  sequences.
* `Compilation.assignedBeforeCall_orders`: where functions assign variables outside, answers depend
  on the order of queries.
-/

namespace DeclLang

namespace Compilation

/-- The answer to a query for a node does not depend on the queries before it, if evaluations are
not nested too deeply: for a node that belongs to a region of data; and, in a program whose
functions are only called and assign only what is renewed in every call, for a node that belongs to
no function.  What stands for a function always comes to a function value of the same
declaration. -/
theorem evaluate_orderIndependent {options : Options} {root : Node} {focus : Option NodeId}
    {before reports : Reports} {compilation : Compilation}
    (compiled : ofTree options root focus before = (.ok compilation, reports)) {id : NodeId}
    {first second : List Query}
    (shallow : ∀ queries ∈ [first, second], ∀ error,
      (compilation.evaluator.evaluate id (compilation.after queries)).1 = .error error →
        ¬error.IsDepth) :
    (∀ region, compilation.context.Data region → id ∈ region →
      (compilation.evaluator.evaluate id (compilation.after first)).1 =
        (compilation.evaluator.evaluate id (compilation.after second)).1) ∧
    (compilation.FirstOrder → (∀ queries ∈ [first, second], ∀ query ∈ queries, query.Plain) →
      (compilation.isOuter id = true → compilation.function? id = none →
        (compilation.evaluator.evaluate id (compilation.after first)).1 =
          (compilation.evaluator.evaluate id (compilation.after second)).1) ∧
      ∀ function, compilation.function? id = some function → ∀ queries ∈ [first, second],
        let ran := compilation.evaluator.evaluate id (compilation.after queries)
        ∃ value, ran.1 = .ok value ∧ value.Denotes ran.2.session.closures function) := by
  have consistent := consistent_of_ofTree compiled
  have fine {queries : List Query} (asked : queries ∈ [first, second]) :
      ¬Fails EvalError.IsDepth
        (compilation.evaluator.evaluate id (compilation.after queries)).1 :=
    fun ⟨error, failed, deep⟩ => shallow queries asked error failed deep
  have isFirst : first ∈ [first, second] := List.mem_cons_self
  have isSecond : second ∈ [first, second] := List.mem_cons_of_mem _ List.mem_cons_self
  refine ⟨fun region data mem => ?_, fun firstOrder plain => ?_⟩
  · have explores {queries : List Query} (asked : queries ∈ [first, second]) :
        (compilation.evaluator.evaluate id (compilation.after queries)).1 =
          compilation.context.explore region.length [] id :=
      (evaluate_after consistent data mem queries).resolve_right (fine asked)
    rw [explores isFirst, explores isSecond]
  · refine ⟨fun outer data => ?_, fun function stands queries asked => ?_⟩
    · have means (queries : List Query) (asked : queries ∈ [first, second]) :=
        (evaluate_means consistent firstOrder (plain queries asked) outer data).resolve_left
          (fine asked)
      rw [means first isFirst, means second isSecond]
    · exact (evaluate_function consistent firstOrder (plain queries asked) stands).resolve_left
        (fine asked)

/-- A note that is made of a variable, which a function assigns. -/
def notes : Node :=
  .mk 0 (.program
    [.mk 1 (.variableDecl "greeting" none (some (.mk 2 (.literal (.string "hello"))))),
      .mk 3 (.recordDecl "Note" []
        [.mk 4 (.variableDecl "text" (some (.mk 5 (.typeName "String" []))) none)]),
      .mk 6 (.variableDecl "note" none (some (.mk 7 (.call (.mk 8 (.identifier "Note"))
        [.mk 9 (.argument (some "text") (.mk 10 (.identifier "greeting")))])))),
      .mk 11 (.functionDecl "change" [] [] (.mk 12 (.typeName "String" []))
        [.mk 13 (.expressionStatement (.mk 14 (.assignment (.mk 15 (.identifier "greeting"))
          (.mk 16 (.literal (.string "bye")))))),
          .mk 17 (.returnStatement (some (.mk 18 (.identifier "greeting"))))]),
      .mk 19 (.variableDecl "changed" none (some (.mk 20 (.call (.mk 21 (.identifier "change"))
        []))))])

/-- Two functions that call each other, and a call of the first one; it assigns its parameter before
it calls the second one. -/
def chorus : Node :=
  .mk 0 (.program
    [.mk 1 (.functionDecl "greet" []
        [.mk 2 (.parameter "name" (.mk 3 (.typeName "String" [])) none),
          .mk 4 (.parameter "loud" (.mk 5 (.typeName "Boolean" [])) none)]
        (.mk 6 (.typeName "String" []))
        [.mk 7 (.branch (.mk 8 (.identifier "loud"))
            [.mk 9 (.expressionStatement (.mk 10 (.assignment (.mk 11 (.identifier "name"))
                (.mk 12 (.literal (.string "hey")))))),
              .mk 13 (.returnStatement (some (.mk 14 (.call (.mk 15 (.identifier "echo"))
                [.mk 16 (.argument none (.mk 17 (.identifier "name")))]))))]),
          .mk 18 (.returnStatement (some (.mk 19 (.identifier "name"))))]),
      .mk 20 (.functionDecl "echo" []
        [.mk 21 (.parameter "name" (.mk 22 (.typeName "String" [])) none)]
        (.mk 23 (.typeName "String" []))
        [.mk 24 (.returnStatement (some (.mk 25 (.call (.mk 26 (.identifier "greet"))
          [.mk 27 (.argument none (.mk 28 (.identifier "name"))),
            .mk 29 (.argument none (.mk 30 (.literal (.boolean false))))]))))]),
      .mk 31 (.variableDecl "quiet" none (some (.mk 32 (.call (.mk 33 (.identifier "greet"))
        [.mk 34 (.argument none (.mk 35 (.literal (.string "hi")))),
          .mk 36 (.argument none (.mk 37 (.literal (.boolean false))))])))),
      .mk 38 (.variableDecl "noisy" none (some (.mk 39 (.call (.mk 40 (.identifier "greet"))
        [.mk 41 (.argument none (.mk 42 (.literal (.string "hi")))),
          .mk 43 (.argument none (.mk 44 (.literal (.boolean true))))]))))])

/-- The note is the same before and after the function was called; so is the outcome of one call
before and after the other one. -/
theorem evaluate_orderIndependent_notes :
    (∃ compilation reports, ofTree {} notes none {} = (.ok compilation, reports) ∧
      (compilation.evaluator.evaluate 6 (compilation.after [.evaluate 19])).1 =
        (compilation.evaluator.evaluate 6 (compilation.after [])).1) ∧
    ∃ compilation reports, ofTree {} chorus none {} = (.ok compilation, reports) ∧
      (compilation.evaluator.evaluate 38 (compilation.after [.evaluate 31])).1 =
        (compilation.evaluator.evaluate 38 (compilation.after [])).1 := by
  have shallow {compilation : Compilation} {id : NodeId} {first second : List Query}
      (isOk : (compilation.evaluator.evaluate id (compilation.after first)).1.isOk)
      (isOkToo : (compilation.evaluator.evaluate id (compilation.after second)).1.isOk) :
      ∀ queries ∈ [first, second], ∀ error,
        (compilation.evaluator.evaluate id (compilation.after queries)).1 = .error error →
          ¬error.IsDepth := by
    rintro queries (_ | ⟨_, _ | ⟨_, mem⟩⟩) error failed deep
    · exact not_fails_of_isOk isOk ⟨error, failed, deep⟩
    · exact not_fails_of_isOk isOkToo ⟨error, failed, deep⟩
    · cases mem
  constructor
  · have checked : ((ofTree {} notes none {}).1.toOption.bind fun compilation =>
        some (decide (compilation.context.Data [6, 7, 8, 3, 10, 1, 2]) &&
          (compilation.evaluator.evaluate 6 (compilation.after [.evaluate 19])).1.isOk &&
            (compilation.evaluator.evaluate 6 (compilation.after [])).1.isOk)) = some true := by
      decide +kernel
    obtain ⟨compilation, compiled, holds⟩ := compiled_of_toOption checked
    simp only [Option.some.injEq, Bool.and_eq_true, decide_eq_true_eq] at holds
    obtain ⟨⟨data, first⟩, second⟩ := holds
    exact ⟨compilation, _, compiled,
      (evaluate_orderIndependent compiled (shallow first second)).1 _ data List.mem_cons_self⟩
  · have checked : ((ofTree {} chorus none {}).1.toOption.bind fun compilation =>
        some (compilation.isFirstOrder && compilation.isOuter 38 &&
          (compilation.function? 38).isNone &&
          (compilation.evaluator.evaluate 38 (compilation.after [.evaluate 31])).1.isOk &&
            (compilation.evaluator.evaluate 38 (compilation.after [])).1.isOk)) = some true := by
      decide +kernel
    obtain ⟨compilation, compiled, holds⟩ := compiled_of_toOption checked
    simp only [Option.some.injEq, Bool.and_eq_true, Option.isNone_iff_eq_none] at holds
    obtain ⟨⟨⟨⟨firstOrder, outer⟩, data⟩, first⟩, second⟩ := holds
    have firstOrder := firstOrder_of_isFirstOrder (consistent_of_ofTree compiled) firstOrder
    have plain : ∀ queries ∈ [[Query.evaluate 31], []], ∀ query ∈ queries, query.Plain :=
      List.forall_mem_cons.2 ⟨List.forall_mem_cons.2 ⟨Query.plain_evaluate 31, nofun⟩,
        List.forall_mem_cons.2 ⟨nofun, nofun⟩⟩
    exact ⟨compilation, _, compiled, ((evaluate_orderIndependent compiled
      (shallow first second)).2 firstOrder plain).1 outer data⟩

/-- A function reads a variable that another function assigns before it calls the first one. -/
def assignedBeforeCall : Node :=
  .mk 0 (.program
    [.mk 1 (.variableDecl "word" none (some (.mk 2 (.literal (.string "old"))))),
      .mk 3 (.functionDecl "read" [] [] (.mk 4 (.typeName "String" []))
        [.mk 5 (.returnStatement (some (.mk 6 (.identifier "word"))))]),
      .mk 7 (.functionDecl "change" [] [] (.mk 8 (.typeName "String" []))
        [.mk 9 (.expressionStatement (.mk 10 (.assignment (.mk 11 (.identifier "word"))
          (.mk 12 (.literal (.string "new")))))),
          .mk 13 (.returnStatement (some (.mk 14 (.call (.mk 15 (.identifier "read")) []))))]),
      .mk 16 (.variableDecl "changed" none (some (.mk 17 (.call (.mk 18 (.identifier "change"))
        [])))),
      .mk 19 (.variableDecl "plain" none (some (.mk 20 (.call (.mk 21 (.identifier "read"))
        []))))])

/-- Calls are no data: the function is made in the frame of the other one if it is first read
there. -/
theorem assignedBeforeCall_orders :
    ((ofTree {} assignedBeforeCall none {}).1.toOption.bind fun compilation =>
      (compilation.evaluator.evaluate 16 (compilation.after [])).1.toOption.bind Value.text?) =
        some "new" ∧
    ((ofTree {} assignedBeforeCall none {}).1.toOption.bind fun compilation =>
      (compilation.evaluator.evaluate 16
        (compilation.after [.evaluate 19])).1.toOption.bind Value.text?) = some "old" := by
  decide +kernel

end Compilation

end DeclLang
