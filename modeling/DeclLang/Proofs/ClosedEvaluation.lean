import DeclLang.Proofs.ExecutionInvariants
import DeclLang.Proofs.Inquiries
import DeclLang.Proofs.LazyExecution

/-!
# Executions that make no function values

**Input.**  A context in which some nodes only depend on each other, and have neither calls nor
functions among their recipes.

**Results.**
* `Evaluator.evaluateWithin_closed`: evaluating such nodes makes no function value.
* `Layout.executeBlock_closed`: neither does executing the statements of a layout.
-/

namespace DeclLang

open Step (Keeps Ensures)

/-- Following the recipe evaluates nodes of the given kind only, and makes no function value. -/
def Thunk.Within (inside : NodeId → Prop) (thunk : Thunk) : Prop :=
  thunk.recipe.isLocal ∧ ∀ source ∈ thunk.sources, inside source

/-- Nodes of the given kind depend on such nodes only. -/
def Context.ClosedOn (inside : NodeId → Prop) (context : Context) : Prop :=
  ∀ id thunk, inside id → context.thunk? id = some thunk → thunk.Within inside

section Closed

variable {inside : NodeId → Prop} {closures : Array Closure → Prop}

/-- An inquiry that ends without a call keeps what evaluation keeps. -/
theorem Inquiry.perform_keeps {contexts : Context → Prop} {evaluate : NodeId → Eval Value}
    (evaluates : ∀ id, inside id → Keeps (Machine.Has contexts closures) (evaluate id))
    (plan : Plan) (limits : Limits) (id : NodeId) {inquiry : Inquiry} (quiet : inquiry.Quiet)
    (within : inquiry.Within inside) :
    Keeps (Machine.Has contexts closures) (inquiry.perform plan limits evaluate id) := by
  induction inquiry with
  | answer outcome => exact Eval.ofExcept_keeps outcome
  | call => exact quiet.elim
  | ask source next ih =>
    exact (evaluates source within.1).bind fun value _ => ih value (quiet value) (within.2 value)

/-- Evaluating such nodes makes no function value. -/
theorem Evaluator.evaluateWithin_closed (evaluator : Evaluator) (budget : Nat) {id : NodeId}
    (mem : inside id) :
    Keeps (Machine.Has (Context.ClosedOn inside) closures)
      (evaluator.evaluateWithin budget id) := by
  induction budget generalizing id with
  | zero =>
    exact lookup_keeps fun _ _ _ _ => Step.ensures_get.bind fun _ _ => Step.ensures_throw _
  | succ budget ih =>
    refine lookup_keeps fun context thunk closed found =>
      nested_keeps (fun _ _ _ closed => closed) (fun _ _ closed => closed) ?_
    obtain ⟨calls, sources⟩ := closed id thunk mem found
    rw [← Thunk.perform_inquiry evaluator.plan evaluator.limits _ id
      (Recipe.isData_of_isLocal calls)]
    exact Inquiry.perform_keeps (fun _ => ih) _ _ id (Thunk.inquiry_quiet calls id)
      (Thunk.inquiry_within sources id)

/-- Statements about such nodes make no function value. -/
theorem Statement.allows_closed (plan : Plan) (evaluator : Evaluator) (budget : Nat)
    {waits : NodeId → Prop} (waiting : ∀ id, waits id → inside id) :
    Statement.Allows plan (Context.ClosedOn inside) closures (evaluator.evaluateWithin budget)
      inside waits fun _ => True where
  evaluates _ mem := evaluator.evaluateWithin_closed budget mem
  pending := waiting
  fails id error context _ closed other thunk mem found := by
    rw [Context.thunk?_addThunk] at found
    split at found
    · cases found
      exact ⟨rfl, nofun⟩
    · exact closed other thunk mem found
  assigns _ _ _ _ _ _ closed := closed
  turns _ _ closed := closed
  adopts context turn closed _ id thunk mem found := by
    rw [Context.thunk?, (Context.adopt_rest turn).1] at found
    exact closed id thunk mem found

end Closed

namespace Layout

/-- The expressions and the declarations of a layout. -/
def Inside (layout : Layout) (id : NodeId) : Prop :=
  (∃ node, layout.Wired node ∧ node.id = id) ∨ id ∈ layout.own

/-- A declaration without an initializer has no recipe, a declaration with one has that of its
initializer. -/
def Declares (layout : Layout) : Prop :=
  ∀ id ∈ layout.own, layout.base.thunk? id = none ∨
    ∃ initializer, layout.Wired initializer ∧
      layout.base.thunk? id = some { dependencies := [initializer.id], recipe := .relay }

variable {layout : Layout}

theorem Wired.inside {node : Node} (h : layout.Wired node) : layout.Inside node.id :=
  .inl ⟨node, h, rfl⟩

theorem Wired.within {node : Node} (h : layout.Wired node) {thunk : Thunk}
    (found : layout.base.thunk? node.id = some thunk) : thunk.Within layout.Inside := by
  cases h with
  | literal apart constant known =>
    rw [Node.id_mk, constant] at found
    cases found
  | identifier apart resolved mem recipe =>
    cases Option.some.inj (recipe.symm.trans found)
    exact ⟨rfl, fun id below => .inr (List.mem_singleton.1 below ▸ mem)⟩
  | binary apart recipe first second =>
    cases Option.some.inj (recipe.symm.trans found)
    have operands {left right : NodeId} (first : layout.Inside left) (second : layout.Inside right)
        (id : NodeId) (below : id ∈ [left, right]) : layout.Inside id := by
      rcases List.mem_pair.1 below with rfl | rfl
      · exact first
      · exact second
    unfold operatorThunk
    split
    · exact ⟨rfl, operands first.inside second.inside⟩
    · exact ⟨rfl, operands first.inside second.inside⟩

/-- Expressions and declarations of a layout depend on each other only. -/
theorem Declares.closedOn (declares : layout.Declares) :
    Context.ClosedOn layout.Inside layout.base := by
  rintro id thunk (⟨node, wired, rfl⟩ | mem) found
  · exact wired.within found
  · rcases declares id mem with nothing | ⟨initializer, wired, recipe⟩
    · rw [nothing] at found
      cases found
    · cases Option.some.inj (recipe.symm.trans found)
      exact ⟨rfl, fun other below => List.mem_singleton.1 below ▸ wired.inside⟩

theorem WiredStatement.runs {statement : Node} (h : layout.WiredStatement statement) :
    Statement.Runs layout.Inside (· ∈ layout.own) (fun _ => True) statement := by
  have simple {kind : Kind Node} (notBranch : ∀ condition block, kind ≠ .branch condition block)
      (notLoop : ∀ condition block, kind ≠ .loop condition block) (condition : Node)
      (block : List Node) : kind ≠ .branch condition block ∧ kind ≠ .loop condition block :=
    ⟨notBranch condition block, notLoop condition block⟩
  induction h with
  | branch wired _ _ ih => exact .branch wired.inside ih
  | loop _ wired _ _ ih => exact .loop wired.inside ih
  | declaration mem _ _ _ => exact .other (simple nofun nofun) nofun nofun nofun fun _ _ _ _ => mem
  | returnUnit => exact .other (simple nofun nofun) nofun nofun nofun nofun
  | returnValue wired =>
    refine .other (simple nofun nofun) (fun expression same => ?_) nofun nofun nofun
    cases same
    exact wired.inside
  | assignment resolved planned mem wired =>
    refine .other (simple nofun nofun) nofun (fun expression same plain => ?_)
      (fun expression target value same assigned => ?_) nofun
    · cases same
      exact absurd rfl (plain _ _)
    · cases same
      cases assigned
      exact ⟨wired.inside, trivial⟩
  | expression wired =>
    refine .other (simple nofun nofun) nofun (fun expression same _ => ?_)
      (fun expression target value same assigned => ?_) nofun
    · cases same
      exact wired.inside
    · cases same
      cases wired <;> cases assigned

/-- Executing the statements of a layout makes no function value. -/
theorem executeBlock_closed (declares : layout.Declares) {statements : List Node}
    (wired : ∀ statement ∈ statements, layout.WiredStatement statement) (limits : Limits)
    (evaluator : Evaluator) (budget : Nat) (session : Session) :
    (Statement.executeBlock layout.plan limits (evaluator.evaluateWithin budget) statements []
      ⟨layout.base, session⟩).2.session.closures = session.closures := by
  have waiting : ∀ id ∈ ([] : List NodeId), id ∈ layout.own := nofun
  have allows : Statement.Allows layout.plan (Context.ClosedOn layout.Inside)
      (· = session.closures) (evaluator.evaluateWithin budget) layout.Inside (· ∈ layout.own)
      (fun _ => True) :=
    Statement.allows_closed layout.plan evaluator budget fun _ => .inr
  exact (Statement.executeBlock_ensures allows
    (fun statement mem => (wired statement mem).runs) waiting _ ⟨declares.closedOn, rfl⟩).1.2

end Layout

end DeclLang
