import DeclLang.Proofs.Contexts

/-!
# What recipes ask for

Most recipes need nothing but the values of nodes.  `Inquiry` says what such a recipe does as a
tree: it asks for the value of a node and goes on with it, or it ends with an outcome or a call.

**Results.**
* `Thunk.perform_inquiry`: evaluating the dependencies of a thunk and following its recipe is to
  carry its inquiry out.
* `Thunk.inquiry_within`: the inquiry asks for the sources of the thunk only.
* `Inquiry.result?_mono`: an inquiry that has a result keeps it when more values are known.
-/

namespace DeclLang

/-- What a recipe does to come to a value. -/
inductive Inquiry where
  | answer (outcome : Except EvalError Value)
  | call (callee : Value) (arguments : Arguments) (result : StaticType)
  | ask (id : NodeId) (next : Value → Inquiry)

namespace Inquiry

/-- Asks for several nodes from left to right. -/
def askAll : List NodeId → (List Value → Inquiry) → Inquiry
  | [], next => next []
  | id :: ids, next => .ask id fun value => askAll ids fun values => next (value :: values)

/-- Goes on with a value as a condition. -/
def decide (value : Value) (next : Bool → Inquiry) : Inquiry :=
  match value.boolean? with
  | some b => next b
  | none => .answer (.error (.notABoolean value.text))

/-- Carries an inquiry of a node out on the machine. -/
def perform (plan : Plan) (limits : Limits) (evaluate : NodeId → Eval Value) (id : NodeId) :
    Inquiry → Eval Value
  | .answer outcome => Eval.ofExcept outcome
  | .call callee arguments result =>
    Call.callValue plan limits evaluate id callee arguments result
  | .ask other next => do
    (next (← evaluate other)).perform plan limits evaluate id

end Inquiry

/-- What a call gives if what is called is not a function value of the program. -/
def Call.native (callee : Value) (arguments : Arguments) (result : StaticType) :
    Except EvalError Value :=
  match callee.content with
  | .builtin path => Builtin.call path (arguments.filterMap Prod.snd)
  | .recordConstructor _ fields =>
    (receive fields arguments).map fun values =>
      .mk result (.record ((fields.map Prod.fst).zip values))
  | .caseConstructor caseName =>
    .ok (.mk result (.enumeration caseName (arguments.filterMap Prod.snd)))
  | .closure .. => .error (.notCallable callee.text)
  | _ => .ok .unit

namespace Recipe

/-- The recipe needs nothing but the values of nodes, and says itself what it does with them. -/
def isData : Recipe → Bool
  | .closure .. | .compute _ | .evaluateApart _ | .tally _ => false
  | _ => true

/-- The recipe needs nothing but the values of nodes, and calls nothing. -/
def isLocal : Recipe → Bool
  | .call .. => false
  | recipe => recipe.isData

theorem isData_of_isLocal {recipe : Recipe} (h : recipe.isLocal) : recipe.isData := by
  cases recipe with
  | call => rfl
  | _ => exact h

/-- The nodes that a recipe evaluates itself. -/
def sources : Recipe → List NodeId
  | .shortCircuit _ first second => [first, second]
  | .evaluate id | .condition id | .evaluateApart id => [id]
  | _ => []

/-- What the recipe of a node does with the values of the dependencies. -/
def inquiry (id : NodeId) : Recipe → List Value → Inquiry
  | .relay, value :: _ => .answer (.ok value)
  | .array type, values => .answer (.ok (.mk type (.array values)))
  | .recordConstructor type record fields, values =>
    .answer (.ok (.mk type (.recordConstructor record (Call.distribute fields values))))
  | .call result slots, callee :: values => .call callee (Call.distribute slots values) result
  | .operation operator, [left, right] => .answer (operator.apply left right)
  | .shortCircuit decisive first second, _ =>
    .ask first fun value => .decide value fun holds =>
      if holds = decisive then .answer (.ok (.boolean holds))
      else .ask second fun value => .decide value fun holds => .answer (.ok (.boolean holds))
  | .failure error, _ => .answer (.error error)
  | .evaluate other, _ => .ask other fun value => .answer (.ok value)
  | .condition other, _ =>
    .ask other fun value => .decide value fun holds => .answer (.ok (.boolean holds))
  | _, _ => .answer (.error (.missingValue id))

end Recipe

namespace Thunk

/-- What is done to come to the value of a node with this thunk. -/
def inquiry (id : NodeId) (thunk : Thunk) : Inquiry :=
  .askAll thunk.dependencies (thunk.recipe.inquiry id)

/-- The nodes whose values a thunk may need. -/
def sources (thunk : Thunk) : List NodeId :=
  thunk.dependencies ++ thunk.recipe.sources

end Thunk

section Perform

variable (plan : Plan) (limits : Limits) (evaluate : NodeId → Eval Value) (id : NodeId)

theorem Inquiry.perform_askAll (ids : List NodeId) (next : List Value → Inquiry) :
    (askAll ids next).perform plan limits evaluate id = (do
      let values ← ids.mapM evaluate
      (next values).perform plan limits evaluate id) := by
  induction ids generalizing next with
  | nil => simp only [askAll, List.mapM_nil, pure_bind]
  | cons first ids ih => simp only [askAll, perform, ih, List.mapM_cons, bind_assoc, pure_bind]

theorem Inquiry.perform_decide (value : Value) (next : Bool → Inquiry) :
    (decide value next).perform plan limits evaluate id = (do
      (next (← Eval.condition value)).perform plan limits evaluate id) := by
  unfold decide Eval.condition
  cases value.boolean? <;> rfl

/-- To follow a recipe is to carry its inquiry out. -/
theorem Recipe.perform_inquiry {recipe : Recipe} (data : recipe.isData) (values : List Value) :
    (recipe.inquiry id values).perform plan limits evaluate id =
      Call.follow plan limits evaluate id recipe values := by
  cases recipe with
  | relay => cases values <;> rfl
  | call result slots => cases values <;> rfl
  | operation operator =>
    rcases values with _ | ⟨left, _ | ⟨right, _ | _⟩⟩ <;> rfl
  | shortCircuit decisive first second =>
    simp only [inquiry, Inquiry.perform, Inquiry.perform_decide, Call.follow]
    congr 1
    funext value
    congr 1
    funext holds
    split
    · rfl
    · simp only [Inquiry.perform, Inquiry.perform_decide]
      rfl
  | condition other =>
    simp only [inquiry, Inquiry.perform, Inquiry.perform_decide, Call.follow]
    rfl
  | evaluate other => exact bind_pure (evaluate other)
  | closure | compute | evaluateApart | tally => cases data
  | _ => rfl

theorem Thunk.perform_inquiry {thunk : Thunk} (data : thunk.recipe.isData) :
    (thunk.inquiry id).perform plan limits evaluate id = (do
      let values ← thunk.dependencies.mapM evaluate
      Call.follow plan limits evaluate id thunk.recipe values) := by
  rw [inquiry, Inquiry.perform_askAll]
  simp only [Recipe.perform_inquiry plan limits evaluate id data]

end Perform

namespace Inquiry

/-- All nodes that an inquiry may ask for are inside. -/
def Within (inside : NodeId → Prop) : Inquiry → Prop
  | .answer _ | .call .. => True
  | .ask id next => inside id ∧ ∀ value, (next value).Within inside

variable {inside : NodeId → Prop}

theorem within_askAll {ids : List NodeId} {next : List Value → Inquiry}
    (each : ∀ id ∈ ids, inside id) (h : ∀ values, (next values).Within inside) :
    (askAll ids next).Within inside := by
  induction ids generalizing next with
  | nil => exact h []
  | cons id ids ih =>
    exact ⟨each id List.mem_cons_self, fun value =>
      ih (fun other mem => each other (List.mem_cons_of_mem _ mem)) fun values => h _⟩

theorem within_decide {value : Value} {next : Bool → Inquiry}
    (h : ∀ b, (next b).Within inside) : (decide value next).Within inside := by
  unfold decide
  split
  · exact h _
  · trivial

end Inquiry

theorem Recipe.inquiry_within {inside : NodeId → Prop} {recipe : Recipe}
    (each : ∀ source ∈ recipe.sources, inside source) (id : NodeId) (values : List Value) :
    (recipe.inquiry id values).Within inside := by
  cases recipe with
  | relay => cases values <;> trivial
  | call result slots => cases values <;> trivial
  | operation operator => rcases values with _ | ⟨left, _ | ⟨right, _ | _⟩⟩ <;> trivial
  | shortCircuit decisive first second =>
    refine ⟨each first List.mem_cons_self, fun value => Inquiry.within_decide fun holds => ?_⟩
    split
    · trivial
    · exact ⟨each second (List.mem_cons_of_mem _ List.mem_cons_self), fun value =>
        Inquiry.within_decide fun _ => trivial⟩
  | evaluate other => exact ⟨each other List.mem_cons_self, fun _ => trivial⟩
  | condition other =>
    exact ⟨each other List.mem_cons_self, fun value => Inquiry.within_decide fun _ => trivial⟩
  | _ => trivial

/-- A thunk asks for its sources only. -/
theorem Thunk.inquiry_within {inside : NodeId → Prop} {thunk : Thunk}
    (each : ∀ source ∈ thunk.sources, inside source) (id : NodeId) :
    (thunk.inquiry id).Within inside :=
  Inquiry.within_askAll (fun source mem => each source (List.mem_append_left _ mem)) fun _ =>
    Recipe.inquiry_within (fun source mem => each source (List.mem_append_right _ mem)) id _

namespace Inquiry

/-- An inquiry ends without a call. -/
def Quiet : Inquiry → Prop
  | .answer _ => True
  | .call .. => False
  | .ask _ next => ∀ value, (next value).Quiet

theorem quiet_askAll {ids : List NodeId} {next : List Value → Inquiry}
    (h : ∀ values, (next values).Quiet) : (askAll ids next).Quiet := by
  induction ids generalizing next with
  | nil => exact h []
  | cons id ids ih => exact fun value => ih fun values => h _

theorem quiet_decide {value : Value} {next : Bool → Inquiry} (h : ∀ b, (next b).Quiet) :
    (decide value next).Quiet := by
  unfold decide
  split
  · exact h _
  · trivial

end Inquiry

theorem Recipe.inquiry_quiet {recipe : Recipe} (calls : recipe.isLocal) (id : NodeId)
    (values : List Value) : (recipe.inquiry id values).Quiet := by
  cases recipe with
  | relay => cases values <;> trivial
  | operation operator => rcases values with _ | ⟨left, _ | ⟨right, _ | _⟩⟩ <;> trivial
  | shortCircuit decisive first second =>
    refine fun value => Inquiry.quiet_decide fun holds => ?_
    split
    · trivial
    · exact fun value => Inquiry.quiet_decide fun _ => trivial
  | evaluate other => exact fun _ => trivial
  | condition other => exact fun value => Inquiry.quiet_decide fun _ => trivial
  | call | closure | compute | evaluateApart | tally => cases calls
  | _ => trivial

/-- A thunk that calls nothing ends with an answer. -/
theorem Thunk.inquiry_quiet {thunk : Thunk} (calls : thunk.recipe.isLocal) (id : NodeId) :
    (thunk.inquiry id).Quiet :=
  Inquiry.quiet_askAll fun _ => Recipe.inquiry_quiet calls id _

namespace Inquiry

/-- The result of an inquiry, as far as values are known. -/
def result? (look : NodeId → Option Value) : Inquiry → Option Value
  | .answer outcome => outcome.toOption
  | .call callee arguments result => (Call.native callee arguments result).toOption
  | .ask id next => (look id).bind fun value => (next value).result? look

theorem result?_mono {look more : NodeId → Option Value}
    (grows : ∀ id value, look id = some value → more id = some value) {inquiry : Inquiry}
    {value : Value} (h : inquiry.result? look = some value) :
    inquiry.result? more = some value := by
  induction inquiry with
  | answer outcome => exact h
  | call callee arguments result => exact h
  | ask id next ih =>
    obtain ⟨answer, known, h⟩ := Option.bind_eq_some_iff.1 h
    exact Option.bind_eq_some_iff.2 ⟨answer, grows id answer known, ih answer h⟩

end Inquiry

end DeclLang
