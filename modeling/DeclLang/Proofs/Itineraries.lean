import DeclLang.Proofs.Moments

/-!
# The visits of a tour

**Input.**  A tree and any visitor: it has a state of its own, and at every call it may pass over
children, stop the tour or fail.

**Rule.**  `Completed` says what is visited when nothing cuts the tour off, `CutOff` what is visited
when it ends at a visit that stops it or fails.  Together they are the `Itinerary` of the tree.

**Construction.**  `Visitor.recorded` writes down every call of a visitor with its answer.

**Results.**
* `Node.tour_recorded`: the calls of a tour are an itinerary, answered by the visitor.
* `Itinerary.unique`: a visitor answers one itinerary.
* `Node.tour_itinerary`: so a tour makes exactly these calls, and ends as its last visit says.
-/

namespace DeclLang

open Inference (Moment)

variable {ε σ : Type}

/-- A call of a visitor, and what it answered. -/
inductive Visit (ε : Type) where
  | entered (node : Node) (answer : Except ε Direction)
  | left (node : Node) (answer : Except ε Unit)

/-- The call, whatever the answer is. -/
def Visit.moment : Visit ε → Moment
  | .entered node _ => .entering node
  | .left node _ => .leaving node

/-- The visits that end a tour at once, and how it ends. -/
inductive Visit.Ends : Visit ε → Except ε Bool → Prop
  | stops (node : Node) : Ends (.entered node (.ok .stop)) (.ok false)
  | refuses (node : Node) (error : ε) : Ends (.entered node (.error error)) (.error error)
  | fails (node : Node) (error : ε) : Ends (.left node (.error error)) (.error error)

/-- The visits of trees that are toured to the end, one after the other: a node is entered, its
children are toured unless they are passed, and it is left. -/
inductive Completed : List Node → List (Visit ε) → Prop
  | done : Completed [] []
  | passed {node : Node} {nodes : List Node} {visits : List (Visit ε)}
    (rest : Completed nodes visits) :
    Completed (node :: nodes) (.entered node (.ok .pass) :: .left node (.ok ()) :: visits)
  | descended {node : Node} {nodes : List Node} {inside visits : List (Visit ε)}
    (below : Completed node.children inside) (rest : Completed nodes visits) :
    Completed (node :: nodes)
      (.entered node (.ok .descend) :: (inside ++ .left node (.ok ()) :: visits))

/-- The visits of a tour that is cut off: up to the last one they are visits of a tour to the end,
and there the same call ends the tour. -/
def CutOff (nodes : List Node) (visits : List (Visit ε)) (outcome : Except ε Bool) : Prop :=
  ∃ earlier next later last, Completed nodes (earlier ++ next :: later) ∧
    last.moment = next.moment ∧ last.Ends outcome ∧ visits = earlier ++ [last]

/-- What may be visited on a tour, and how it ends. -/
def Itinerary (nodes : List Node) (visits : List (Visit ε)) (outcome : Except ε Bool) : Prop :=
  Completed nodes visits ∧ outcome = .ok true ∨ CutOff nodes visits outcome

/-- Every node that is entered is left, and what is visited in between is nested in the same way. -/
inductive Nested : List (Visit ε) → Prop
  | nothing : Nested []
  | around {node : Node} {inside visits : List (Visit ε)} {answer : Except ε Direction}
    {result : Except ε Unit} (within : Nested inside) (rest : Nested visits) :
    Nested (.entered node answer :: (inside ++ .left node result :: visits))

namespace Visitor

/-- From the first state on, the visitor gives these answers to these calls, which brings it to the
second state. -/
inductive Answers (visitor : Visitor ε σ) : σ → List (Visit ε) → σ → Prop
  | nothing (state : σ) : Answers visitor state [] state
  | entered {state middle after : σ} {node : Node} {answer : Except ε Direction}
    {visits : List (Visit ε)} (first : visitor.enter node state = (answer, middle))
    (rest : Answers visitor middle visits after) :
    Answers visitor state (.entered node answer :: visits) after
  | left {state middle after : σ} {node : Node} {answer : Except ε Unit}
    {visits : List (Visit ε)} (first : visitor.leave node state = (answer, middle))
    (rest : Answers visitor middle visits after) :
    Answers visitor state (.left node answer :: visits) after

/-- The visitor that writes down its calls and answers. -/
def recorded (visitor : Visitor ε σ) : Visitor ε (σ × List (Visit ε)) where
  enter node := fun (state, visits) =>
    let (answer, after) := visitor.enter node state
    (answer, after, visits ++ [.entered node answer])
  leave node := fun (state, visits) =>
    let (answer, after) := visitor.leave node state
    (answer, after, visits ++ [.left node answer])

variable {visitor : Visitor ε σ} {state middle after : σ} {visits later : List (Visit ε)}

theorem Answers.append (first : visitor.Answers state visits middle)
    (rest : visitor.Answers middle later after) :
    visitor.Answers state (visits ++ later) after := by
  induction first with
  | nothing => exact rest
  | entered here _ ih => exact .entered here (ih rest)
  | left here _ ih => exact .left here (ih rest)

/-- The same call in the same state gets the same answer. -/
theorem Answers.same_first {first second : Visit ε} {others : List (Visit ε)} {end' : σ}
    (answers : visitor.Answers state (first :: visits) after)
    (answersOthers : visitor.Answers state (second :: others) end')
    (same : first.moment = second.moment) :
    first = second ∧ ∃ middle, visitor.Answers middle visits after ∧
      visitor.Answers middle others end' := by
  cases answers with
  | entered here rest =>
    cases answersOthers with
    | entered there restOthers =>
      cases same
      cases here.symm.trans there
      exact ⟨rfl, _, rest, restOthers⟩
    | left => cases same
  | left here rest =>
    cases answersOthers with
    | entered => cases same
    | left there restOthers =>
      cases same
      cases here.symm.trans there
      exact ⟨rfl, _, rest, restOthers⟩

theorem recorded_enter {node : Node} {answer : Except ε Direction}
    (enters : visitor.enter node state = (answer, after)) (visits : List (Visit ε)) :
    visitor.recorded.enter node (state, visits) =
      (answer, after, visits ++ [.entered node answer]) := by
  simp only [recorded, enters]

theorem recorded_leave {node : Node} {answer : Except ε Unit}
    (leaves : visitor.leave node state = (answer, after)) (visits : List (Visit ε)) :
    visitor.recorded.leave node (state, visits) =
      (answer, after, visits ++ [.left node answer]) := by
  simp only [recorded, leaves]

end Visitor

section Rule

variable {node : Node} {nodes others : List Node} {visits later inside : List (Visit ε)}
  {outcome : Except ε Bool}

/-- Trees may be toured with all children passed. -/
theorem exists_completed (nodes : List Node) :
    ∃ visits : List (Visit ε), Completed nodes visits := by
  induction nodes with
  | nil => exact ⟨[], .done⟩
  | cons node nodes ih =>
    obtain ⟨visits, completed⟩ := ih
    exact ⟨_, .passed completed⟩

theorem Completed.append (first : Completed nodes visits) (second : Completed others later) :
    Completed (nodes ++ others) (visits ++ later) := by
  induction first with
  | done => exact second
  | passed _ ih => exact .passed ih
  | descended below _ _ ih =>
    rw [List.cons_append, List.cons_append, List.append_assoc, List.cons_append]
    exact .descended below ih

theorem Completed.nested (completed : Completed nodes visits) : Nested visits := by
  induction completed with
  | done => exact .nothing
  | passed _ ih => exact .around .nothing ih
  | descended _ _ inner ih => exact .around inner ih

namespace CutOff

/-- A tour that is cut off comes to nothing behind that. -/
theorem append (cut : CutOff nodes visits outcome) (others : List Node) :
    CutOff (nodes ++ others) visits outcome := by
  obtain ⟨earlier, next, rest, last, completed, same, ends, rfl⟩ := cut
  obtain ⟨behind, completedOthers⟩ : ∃ behind : List (Visit ε), Completed others behind :=
    exists_completed others
  refine ⟨earlier, next, rest ++ behind, last, ?_, same, ends, rfl⟩
  have whole := completed.append completedOthers
  rwa [List.append_assoc, List.cons_append] at whole

/-- A tour may be cut off after some trees have been toured to the end. -/
theorem after (first : Completed nodes visits) (cut : CutOff others later outcome) :
    CutOff (nodes ++ others) (visits ++ later) outcome := by
  obtain ⟨earlier, next, rest, last, completed, same, ends, rfl⟩ := cut
  refine ⟨visits ++ earlier, next, rest, last, ?_, same, ends, ?_⟩
  · rw [List.append_assoc]
    exact first.append completed
  · rw [List.append_assoc]

/-- A tour may be cut off among the children of a node. -/
theorem below (cut : CutOff node.children inside outcome) :
    CutOff [node] (.entered node (.ok .descend) :: inside) outcome := by
  obtain ⟨earlier, next, rest, last, completed, same, ends, rfl⟩ := cut
  have whole := Completed.descended completed .done
  rw [List.append_assoc, List.cons_append] at whole
  exact ⟨.entered node (.ok .descend) :: earlier, next, _, last, whole, same, ends, rfl⟩

theorem entering {answer : Except ε Direction} (ends : Visit.Ends (.entered node answer) outcome) :
    CutOff [node] [.entered node answer] outcome :=
  ⟨[], .entered node (.ok .pass), [.left node (.ok ())], .entered node answer, .passed .done, rfl,
    ends, rfl⟩

/-- A tour may be cut off where it leaves the last node. -/
theorem leaving {answer : Except ε Unit} (whole : Completed nodes (visits ++ [.left node (.ok ())]))
    (ends : Visit.Ends (.left node answer) outcome) :
    CutOff nodes (visits ++ [.left node answer]) outcome :=
  ⟨visits, .left node (.ok ()), [], .left node answer, whole, rfl, ends, rfl⟩

end CutOff

namespace Itinerary

theorem completed (itinerary : Itinerary nodes visits (.ok true)) : Completed nodes visits := by
  rcases itinerary with ⟨completed, -⟩ | ⟨_, _, _, _, -, -, ends, -⟩
  · exact completed
  · cases ends

theorem cutOff (itinerary : Itinerary nodes visits outcome) (other : outcome ≠ .ok true) :
    CutOff nodes visits outcome :=
  itinerary.resolve_left fun whole => other whole.2

/-- Other trees are toured as well, unless the tour was cut off. -/
theorem append (first : Itinerary nodes visits (.ok true))
    (second : Itinerary others later outcome) :
    Itinerary (nodes ++ others) (visits ++ later) outcome :=
  second.imp (fun whole => ⟨first.completed.append whole.1, whole.2⟩)
    fun cut => .after first.completed cut

end Itinerary

end Rule

section Record

variable {visitor : Visitor ε σ}

/-- Recording changes nothing about a step, and what is recorded is an itinerary of the trees that
the visitor answered. -/
def Records (visitor : Visitor ε σ) (nodes : List Node)
    (recorded : Step ε (σ × List (Visit ε)) Bool) (step : Step ε σ Bool) : Prop :=
  ∀ state log outcome after, step state = (outcome, after) → ∃ visits,
    recorded (state, log) = (outcome, after, log ++ visits) ∧
      visitor.Answers state visits after ∧ Itinerary nodes visits outcome

/-- Trees are toured one after the other until a tour is cut off. -/
theorem records_siblings {nodes : List Node}
    (each : ∀ node ∈ nodes,
      Records visitor [node] (node.tour visitor.recorded) (node.tour visitor)) :
    Records visitor nodes (nodes.allM (Node.tour visitor.recorded))
      (nodes.allM (Node.tour visitor)) := by
  induction nodes with
  | nil =>
    intro state log outcome after ran
    cases ran
    exact ⟨[], by rw [List.append_nil]; rfl, .nothing state, .inl ⟨.done, rfl⟩⟩
  | cons node nodes ih =>
    intro state log outcome after ran
    cases first : node.tour visitor state with
    | mk result middle =>
      obtain ⟨visits, recorded, answers, itinerary⟩ :=
        each node List.mem_cons_self state log result middle first
      rw [List.allM] at ran ⊢
      cases result with
      | error error =>
        rw [Step.bind_error first] at ran
        cases ran
        exact ⟨visits, Step.bind_error recorded, answers,
          .inr ((itinerary.cutOff fun same => by cases same).append nodes)⟩
      | ok finished =>
        rw [Step.bind_ok first] at ran
        cases finished with
        | false =>
          cases ran
          exact ⟨visits, Step.bind_ok recorded, answers,
            .inr ((itinerary.cutOff fun same => by cases same).append nodes)⟩
        | true =>
          obtain ⟨later, recordedLater, answersLater, itineraryLater⟩ :=
            ih (fun other mem => each other (List.mem_cons_of_mem _ mem)) middle (log ++ visits)
              outcome after ran
          refine ⟨visits ++ later, ?_, answers.append answersLater, itinerary.append itineraryLater⟩
          rw [Step.bind_ok recorded, ← List.append_assoc]
          exact recordedLater

/-- What is left to do once the children of a node have been toured or passed. -/
theorem records_leave {node : Node} {inside : List (Visit ε)}
    (whole : Completed [node] (inside ++ [.left node (.ok ())])) {state after : σ}
    {outcome : Except ε Bool}
    (ran : (do visitor.leave node; return true : Step ε σ Bool) state = (outcome, after))
    (log : List (Visit ε)) :
    ∃ answer, (do visitor.recorded.leave node; return true : Step ε (σ × List (Visit ε)) Bool)
        (state, log) = (outcome, after, log ++ [.left node answer]) ∧
      visitor.Answers state [.left node answer] after ∧
      Itinerary [node] (inside ++ [.left node answer]) outcome := by
  cases left : visitor.leave node state with
  | mk answer middle =>
    have recorded := Visitor.recorded_leave left log
    refine ⟨answer, ?_⟩
    cases answer with
    | error error =>
      rw [Step.bind_error left] at ran
      cases ran
      exact ⟨Step.bind_error recorded, .left left (.nothing _),
        .inr (.leaving whole (.fails node error))⟩
    | ok =>
      rw [Step.bind_ok left] at ran
      cases ran
      exact ⟨Step.bind_ok recorded, .left left (.nothing _), .inl ⟨whole, rfl⟩⟩

/-- The calls of a tour are an itinerary of the tree, which the visitor answers. -/
theorem Node.tour_recorded (visitor : Visitor ε σ) (node : Node) :
    Records visitor [node] (node.tour visitor.recorded) (node.tour visitor) := by
  induction node using Node.children_induction with
  | step node ih =>
    intro state log outcome after ran
    rw [Node.tour_eq] at ran ⊢
    cases entered : visitor.enter node state with
    | mk answer middle =>
      have recorded := Visitor.recorded_enter entered log
      cases answer with
      | error error =>
        rw [Step.bind_error entered] at ran
        cases ran
        exact ⟨[.entered node (.error error)], Step.bind_error recorded,
          .entered entered (.nothing _), .inr (.entering (.refuses node error))⟩
      | ok direction =>
        rw [Step.bind_ok entered] at ran
        rw [Step.bind_ok recorded]
        cases direction with
        | stop =>
          cases ran
          exact ⟨[.entered node (.ok .stop)], rfl, .entered entered (.nothing _),
            .inr (.entering (.stops node))⟩
        | pass =>
          have whole : Completed [node]
              ([.entered node (.ok .pass)] ++ [.left node (.ok ())] : List (Visit ε)) :=
            .passed .done
          obtain ⟨answer, left, answers, itinerary⟩ :=
            records_leave whole ran (log ++ [.entered node (.ok .pass)])
          rw [List.append_assoc] at left
          exact ⟨_, left, .entered entered answers, itinerary⟩
        | descend =>
          -- The node is left only if all its children have been toured to the end.
          dsimp only at ran ⊢
          cases children : node.children.allM (Node.tour visitor) middle with
          | mk result touring =>
            obtain ⟨inside, recordedInside, answersInside, below⟩ :=
              records_siblings ih middle (log ++ [.entered node (.ok .descend)]) result touring
                children
            rw [List.append_assoc, List.singleton_append] at recordedInside
            have answered :
                visitor.Answers state (.entered node (.ok .descend) :: inside) touring :=
              .entered entered answersInside
            cases result with
            | error error =>
              rw [Step.bind_error children] at ran
              cases ran
              exact ⟨_, Step.bind_error recordedInside, answered,
                .inr (.below (below.cutOff nofun))⟩
            | ok finished =>
              rw [Step.bind_ok children] at ran
              rw [Step.bind_ok recordedInside]
              cases finished with
              | false =>
                cases ran
                exact ⟨_, rfl, answered, .inr (.below (below.cutOff nofun))⟩
              | true =>
                have whole : Completed [node]
                    ((.entered node (.ok .descend) :: inside) ++ [.left node (.ok ())]) :=
                  .descended below.completed .done
                obtain ⟨answer, left, answers, itinerary⟩ :=
                  records_leave whole ran (log ++ .entered node (.ok .descend) :: inside)
                rw [List.append_assoc] at left
                exact ⟨_, left, answered.append answers, itinerary⟩

end Record

/-- The calls that a visit adds to those that are still to make, unless it ends the tour. -/
def Visit.added? : Visit ε → Option (List Moment)
  | .entered node (.ok .pass) => some [.leaving node]
  | .entered node (.ok .descend) => some (node.children.map .entering ++ [.leaving node])
  | .left _ (.ok ()) => some []
  | _ => none

/-- `Due calls visits outcome`: while these calls are still to make, these visits bring the tour to
its end. -/
inductive Due : List Moment → List (Visit ε) → Except ε Bool → Prop
  | done : Due [] [] (.ok true)
  | last {call : Moment} {calls : List Moment} {visit : Visit ε} {outcome : Except ε Bool}
    (same : visit.moment = call) (ends : visit.Ends outcome) : Due (call :: calls) [visit] outcome
  | next {call : Moment} {calls added : List Moment} {visit : Visit ε} {visits : List (Visit ε)}
    {outcome : Except ε Bool} (same : visit.moment = call) (adds : visit.added? = some added)
    (rest : Due (added ++ calls) visits outcome) : Due (call :: calls) (visit :: visits) outcome

section Unique

variable {nodes : List Node} {calls : List Moment} {visits others later : List (Visit ε)}
  {outcome other : Except ε Bool} {visit : Visit ε}

theorem Visit.Ends.unique (ends : visit.Ends outcome) (again : visit.Ends other) :
    outcome = other := by
  cases ends <;> cases again <;> rfl

theorem Visit.Ends.added?_eq_none (ends : visit.Ends outcome) : visit.added? = none := by
  cases ends <;> rfl

/-- Trees that are toured to the end leave the calls behind them to make. -/
theorem Completed.due (completed : Completed nodes visits) (rest : Due calls later outcome) :
    Due (nodes.map .entering ++ calls) (visits ++ later) outcome := by
  induction completed generalizing calls later with
  | done => exact rest
  | passed _ ih => exact .next rfl rfl (.next rfl rfl (ih rest))
  | descended _ _ inner ih =>
    rw [List.cons_append, List.append_assoc]
    refine .next rfl rfl ?_
    rw [List.append_assoc]
    exact inner (.next rfl rfl (ih rest))

/-- As long as there are calls to make, the next one is made. -/
theorem Due.first {call : Moment} (due : Due (call :: calls) visits outcome) :
    ∃ visit rest, visits = visit :: rest ∧ visit.moment = call := by
  cases due with
  | last same _ => exact ⟨_, _, rfl, same⟩
  | next same _ _ => exact ⟨_, _, rfl, same⟩

/-- Where there is another visit, the same call may end the tour. -/
theorem Due.cut {earlier : List (Visit ε)} {expected : Visit ε}
    (due : Due calls (earlier ++ expected :: later) outcome)
    (same : visit.moment = expected.moment) (ends : visit.Ends other) :
    Due calls (earlier ++ [visit]) other := by
  induction earlier generalizing calls with
  | nil =>
    rw [List.nil_append] at due ⊢
    cases due with
    | last call _ => exact .last (same.trans call) ends
    | next call _ _ => exact .last (same.trans call) ends
  | cons first earlier ih =>
    rw [List.cons_append] at due ⊢
    generalize whole : earlier ++ expected :: later = visits at due
    cases due with
    | last _ _ => exact absurd whole (by simp)
    | next call adds rest => exact .next call adds (ih (whole ▸ rest))

theorem Itinerary.due (itinerary : Itinerary nodes visits outcome) :
    Due (nodes.map .entering) visits outcome := by
  rcases itinerary with ⟨completed, rfl⟩ | ⟨earlier, next, rest, last, completed, same, ends, rfl⟩
  · have whole := completed.due .done
    rwa [List.append_nil, List.append_nil] at whole
  · have whole := completed.due .done
    rw [List.append_nil, List.append_nil] at whole
    exact whole.cut same ends

variable {visitor : Visitor ε σ} {state after end' : σ}

/-- Where two lists of visits agree so far, the same call is made next, and gets the same answer. -/
theorem Due.unique (due : Due calls visits outcome) (answers : visitor.Answers state visits after)
    (dueOthers : Due calls others other) (answersOthers : visitor.Answers state others end') :
    visits = others ∧ outcome = other := by
  induction due generalizing state others with
  | done =>
    cases dueOthers
    exact ⟨rfl, rfl⟩
  | last same ends =>
    obtain ⟨visit, rest, rfl, sameOthers⟩ := dueOthers.first
    obtain ⟨rfl, middle, -, -⟩ := answers.same_first answersOthers (same.trans sameOthers.symm)
    -- A visit that ends the tour adds no calls, so the other list ends here as well.
    cases dueOthers with
    | last _ endsOthers => exact ⟨rfl, ends.unique endsOthers⟩
    | next _ adds _ => exact absurd (ends.added?_eq_none.symm.trans adds) nofun
  | next same adds _ ih =>
    obtain ⟨visit, rest, rfl, sameOthers⟩ := dueOthers.first
    obtain ⟨rfl, middle, answers, answersOthers⟩ :=
      answers.same_first answersOthers (same.trans sameOthers.symm)
    cases dueOthers with
    | last _ ends => exact absurd (ends.added?_eq_none.symm.trans adds) nofun
    | next _ addsOthers dueOthers =>
      cases adds.symm.trans addsOthers
      obtain ⟨rfl, ends⟩ := ih answers dueOthers answersOthers
      exact ⟨rfl, ends⟩

/-- A visitor answers one itinerary. -/
theorem Itinerary.unique (itinerary : Itinerary nodes visits outcome)
    (answers : visitor.Answers state visits after)
    (itineraryOthers : Itinerary nodes others other)
    (answersOthers : visitor.Answers state others end') : visits = others ∧ outcome = other :=
  itinerary.due.unique answers itineraryOthers.due answersOthers

end Unique

/-- A tour makes the calls of the one itinerary of its tree that the visitor answers.  It stops
early exactly if a visit cuts it off by stopping it, fails exactly if a visit cuts it off by
failing, and otherwise goes through the whole tree, leaving what it enters in nested order. -/
theorem Node.tour_itinerary (visitor : Visitor ε σ) (root : Node) (state : σ) :
    let result := root.tour visitor state
    ∃ visits, root.tour visitor.recorded (state, []) = (result.1, result.2, visits) ∧
      (∀ others outcome, Itinerary [root] others outcome ∧
        (∃ after, visitor.Answers state others after) ↔ others = visits ∧ outcome = result.1) ∧
      visitor.Answers state visits result.2 ∧
      (result.1 = .ok false ↔ CutOff [root] visits (.ok false)) ∧
      (∀ error, result.1 = .error error ↔ CutOff [root] visits (.error error)) ∧
      (result.1 = .ok true ↔ Completed [root] visits) ∧
      (Completed [root] visits → Nested visits) := by
  intro result
  obtain ⟨visits, recorded, answers, itinerary⟩ :=
    root.tour_recorded visitor state [] result.1 result.2 rfl
  have only {others : List (Visit ε)} {outcome : Except ε Bool} {after : σ}
      (other : Itinerary [root] others outcome) (answered : visitor.Answers state others after) :
      others = visits ∧ outcome = result.1 :=
    other.unique answered itinerary answers
  have cut (outcome : Except ε Bool) (early : outcome ≠ .ok true) :
      result.1 = outcome ↔ CutOff [root] visits outcome :=
    ⟨fun same => same ▸ itinerary.cutOff (same ▸ early),
      fun cut => (only (.inr cut) answers).2.symm⟩
  refine ⟨visits, recorded, fun others outcome => ⟨fun ⟨other, after, answered⟩ =>
    only other answered, ?_⟩, answers, cut _ nofun, fun error => cut _ nofun,
    ⟨fun same => Itinerary.completed (same ▸ itinerary),
      fun completed => (only (.inl ⟨completed, rfl⟩) answers).2.symm⟩, Completed.nested⟩
  rintro ⟨rfl, rfl⟩
  exact ⟨itinerary, result.2, answers⟩

/-- A visitor that counts its calls, passes over the children of one node, and gets lost when it
leaves another one. -/
def distracted : Visitor String Nat where
  enter node := do
    modify (· + 1)
    return if node.id = 2 then .pass else .descend
  leave node := do
    modify (· + 1)
    if node.id = 4 then throw "lost"

/-- Two variables in a namespace, and a declaration behind them. -/
def garden : Node :=
  .mk 0 (.program [
    .mk 1 (.namespaceDecl "garden" [
      .mk 2 (.variableDecl "pond" none (some (.mk 3 (.literal .none)))),
      .mk 4 (.variableDecl "path" none (some (.mk 5 (.identifier "pond"))))]),
    .mk 6 (.importDecl "tools")])

/-- The tour passes over the first initializer, leaves what it has entered, and is cut off where
leaving fails. -/
theorem Node.tour_itinerary_garden :
    ∃ visits, CutOff [garden] visits (.error "lost") ∧
      distracted.Answers 0 visits (garden.tour distracted 0).2 ∧
      (garden.tour distracted 0).2 = 8 ∧
      visits.map (fun visit => match visit with
        | .entered node _ => ("enter", node.id)
        | .left node _ => ("leave", node.id)) =
      [("enter", 0), ("enter", 1), ("enter", 2), ("leave", 2), ("enter", 4), ("enter", 5),
        ("leave", 5), ("leave", 4)] := by
  obtain ⟨visits, recorded, -, answers, -, fails, -⟩ := Node.tour_itinerary distracted garden 0
  have failed : (garden.tour distracted 0).1 = .error "lost" := by decide +kernel
  refine ⟨visits, (fails "lost").1 failed, answers, by decide +kernel, ?_⟩
  have written : visits = (garden.tour distracted.recorded (0, [])).2.2 := by rw [recorded]
  rw [written]
  decide +kernel

end DeclLang
