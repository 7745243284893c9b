import DeclLang.Proofs.ClosedEvaluation
import DeclLang.Proofs.Exploration
import DeclLang.Proofs.Tandems

/-!
# Two executions in lockstep

**Input.**  Finitely many nodes that only depend on each other and call nothing, and two machines.

**Invariant.**  `Context.Matches`: the contexts of both machines have the same values and recipes
for these nodes, those on a path are in progress, and the same were assigned.  About other nodes,
the function values made so far and the depth of evaluation the machines need not agree.

**Results.**
* `Evaluator.evaluateWithin_lockstep`: evaluating one of the nodes has the same outcome, if
  evaluations may be nested as deep as there are nodes.
* `Statement.executeBlock_lockstep`: so has the execution of statements about them.
-/

namespace DeclLang

/-- The contexts agree about the nodes inside, whose recipes are about such nodes only. -/
structure Context.Matches (inside : NodeId → Prop) (path : List NodeId) (first second : Context) :
    Prop where
  values : ∀ id, inside id → first.value? id = second.value? id
  recipes : ∀ id, inside id → first.thunk? id = second.thunk? id
  progress : ∀ id, inside id →
    (id ∈ first.inProgress ↔ id ∈ path) ∧ (id ∈ second.inProgress ↔ id ∈ path)
  assigned : ∀ id, inside id → (id ∈ first.rebound ↔ id ∈ second.rebound)
  closed : first.ClosedOn inside

namespace Context.Matches

variable {inside : NodeId → Prop} {path : List NodeId} {first second : Context}
  (h : first.Matches inside path second)

include h

theorem progressed {longer : List NodeId} {left right : Std.TreeSet NodeId}
    (same : ∀ id, inside id → (id ∈ left ↔ id ∈ longer) ∧ (id ∈ right ↔ id ∈ longer)) :
    Context.Matches inside longer { first with inProgress := left }
      { second with inProgress := right } where
  values := h.values
  recipes := h.recipes
  progress := same
  assigned := h.assigned
  closed := h.closed

theorem addValue (id : NodeId) (value : Value) :
    (first.addValue id value).Matches inside path (second.addValue id value) where
  values other mem := by
    rw [value?_addValue, value?_addValue, h.values other mem]
  recipes := h.recipes
  progress := h.progress
  assigned := h.assigned
  closed := h.closed

theorem addValues (bindings : List (NodeId × Value)) :
    (first.addValues bindings).Matches inside path (second.addValues bindings) := by
  unfold Context.addValues
  induction bindings generalizing first second with
  | nil => exact h
  | cons binding bindings ih => exact ih (h.addValue binding.1 binding.2)

theorem rebind (id : NodeId) (value : Value) :
    (first.rebind id value).Matches inside path (second.rebind id value) where
  values other mem := by
    rw [value?_rebind, value?_rebind, h.values other mem]
  recipes := h.recipes
  progress := h.progress
  assigned other mem := by
    rw [mem_rebound_rebind, mem_rebound_rebind, h.assigned other mem]
  closed := h.closed

/-- Both nodes fail in the same way. -/
theorem fail (id : NodeId) (error : EvalError) :
    (first.addThunk id (.failed error)).Matches inside path
      (second.addThunk id (.failed error)) where
  values := h.values
  recipes other mem := by
    rw [thunk?_addThunk, thunk?_addThunk, h.recipes other mem]
  progress := h.progress
  assigned := h.assigned
  closed other thunk mem found := by
    rw [thunk?_addThunk] at found
    split at found
    · cases found
      exact ⟨rfl, nofun⟩
    · exact h.closed other thunk mem found

theorem turn (subtree : List NodeId) :
    (first.copy.forget subtree).Matches inside [] (second.copy.forget subtree) where
  values id mem := by
    rw [value?_forget, value?_forget, show first.copy.thunk? id = second.copy.thunk? id from
      h.recipes id mem, show first.copy.value? id = second.copy.value? id from h.values id mem]
  recipes := h.recipes
  progress _ _ :=
    ⟨iff_of_false Std.TreeSet.not_mem_emptyc List.not_mem_nil,
      iff_of_false Std.TreeSet.not_mem_emptyc List.not_mem_nil⟩
  assigned _ _ := Iff.rfl
  closed := h.closed

theorem adopt {other : List NodeId} {left right : Context}
    (turns : left.Matches inside other right) :
    (first.adopt left).Matches inside path (second.adopt right) where
  values id mem := by
    rw [value?_adopt, value?_adopt, turns.values id mem, h.values id mem]
    simp only [turns.assigned id mem]
  recipes id mem := by
    rw [thunk?, thunk?, (adopt_rest left).1, (adopt_rest right).1]
    exact h.recipes id mem
  progress id mem := by
    rw [(adopt_rest left).2, (adopt_rest right).2]
    exact h.progress id mem
  assigned id mem := by
    rw [mem_rebound_adopt, mem_rebound_adopt, turns.values id mem, turns.assigned id mem,
      h.assigned id mem]
  closed id thunk mem found := by
    rw [thunk?, (adopt_rest left).1] at found
    exact h.closed id thunk mem found

end Context.Matches

/-- Two machines whose contexts match.  No step of the first one is lost. -/
def Tandem.alike (inside : NodeId → Prop) (path : List NodeId) : Tandem where
  joins left right := left.context.Matches inside path right.context
  kept _ := True
  continues _ _ := True
  lost _ := False
  kept_of_joins _ _ _ := trivial
  refl _ := trivial
  trans _ _ _ _ _ := trivial

theorem Tandem.turns_alike (inside : NodeId → Prop) : (Tandem.alike inside []).Turns where
  opens left right (matched : left.context.Matches inside [] right.context) subtree :=
    matched.turn subtree
  returns _ _ _ _ matched _ _ := matched
  keeps _ _ _ _ _ _ := trivial
  adopts left right turn other (matched : left.context.Matches inside [] right.context)
      (turns : turn.Matches inside [] other) := matched.adopt turns

/-- Evaluations in machines that match keep them together and have the same outcome. -/
def Eval.Lockstep (inside : NodeId → Prop) (path : List NodeId) (first second : Eval Value) :
    Prop :=
  ∀ left right : Machine, left.context.Matches inside path right.context →
    Eval.Meets (.alike inside path) left right first second fun _ _ value other => value = other

section Steps

variable {inside : NodeId → Prop} {path : List NodeId}

/-- Steps that meet end in machines that match, with outcomes that correspond. -/
theorem Eval.Meets.alike {α β : Type} {left right : Machine} {first : Eval α} {second : Eval β}
    {gives : α → β → Prop}
    (h : Eval.Meets (.alike inside path) left right first second fun _ _ => gives) :
    (first left).2.context.Matches inside path (second right).2.context ∧
      Corresponds gives (first left).1 (second right).1 :=
  h.ends.resolve_left fun ⟨_, _, lost⟩ => lost

/-- An inquiry that ends without a call is carried out in lockstep. -/
theorem Inquiry.perform_lockstep {evaluate again : NodeId → Eval Value}
    (evaluates : ∀ id, inside id → Eval.Lockstep inside path (evaluate id) (again id))
    (plan : Plan) (limits : Limits) (id : NodeId) {inquiry : Inquiry} (quiet : inquiry.Quiet)
    (within : inquiry.Within inside) :
    Eval.Lockstep inside path (inquiry.perform plan limits evaluate id)
      (inquiry.perform plan limits again id) := by
  induction inquiry with
  | answer outcome => exact fun _ _ matched => Eval.meets_ofExcept matched fun _ _ => rfl
  | call => exact quiet.elim
  | ask source next ih =>
    refine fun left right matched => (evaluates source within.1 left right matched).bind
      fun after later value other matched _ same => ?_
    subst same
    exact ih value (quiet value) (within.2 value) after later matched

namespace Evaluator

variable {id : NodeId}

theorem lookup_lockstep (mem : inside id) {run again : Thunk → Eval Value}
    (h : ∀ thunk, thunk.Within inside → id ∉ path →
      Eval.Lockstep inside path (run thunk) (again thunk)) :
    Eval.Lockstep inside path (lookup run id) (lookup again id) := by
  rintro ⟨first, session⟩ ⟨second, other⟩ matched
  have same : first.value? id = second.value? id := matched.values id mem
  have recipe : first.thunk? id = second.thunk? id := matched.recipes id mem
  cases known : second.value? id with
  | some value =>
    exact (Eval.meets_pure (a := value) (b := value) matched rfl).congr
      (lookup_value (same.trans known)) (lookup_value known)
  | none =>
    cases found : second.thunk? id with
    | none =>
      exact (Eval.meets_throw matched (.missingValue id)).congr
        (lookup_missing (same.trans known) (recipe.trans found)) (lookup_missing known found)
    | some thunk =>
      have within := matched.closed id thunk mem (recipe.trans found)
      obtain ⟨busyFirst, busySecond⟩ := matched.progress id mem
      by_cases busy : id ∈ path
      · exact (Eval.meets_throw matched (.cycle id)).congr
          (lookup_cycle (same.trans known) (recipe.trans found) (busyFirst.2 busy))
          (lookup_cycle known found (busySecond.2 busy))
      · exact (h thunk within busy _ _ matched).congr
          (lookup_run (same.trans known) (recipe.trans found) (mt busyFirst.1 busy))
          (lookup_run known found (mt busySecond.1 busy))

theorem nested_lockstep (new : id ∉ path) {step again : Eval Value}
    (h : Eval.Lockstep inside (id :: path) step again) :
    Eval.Lockstep inside path (nested id step) (nested id again) := by
  rintro ⟨left, session⟩ ⟨right, other⟩ matched
  have enters {context : Context} {node : NodeId}
      (same : node ∈ context.inProgress ↔ node ∈ path) :
      node ∈ context.inProgress.insert id ↔ node ∈ id :: path := by
    rw [context.mem_inProgress_insert, List.mem_cons, same]
  have leaves {context : Context} {node : NodeId}
      (same : node ∈ context.inProgress ↔ node ∈ id :: path) :
      node ∈ context.inProgress.erase id ↔ node ∈ path := by
    rw [context.mem_inProgress_erase, same, List.mem_cons]
    constructor
    · rintro ⟨different, equal | before⟩
      · exact absurd equal different
      · exact before
    · intro before
      refine ⟨?_, .inr before⟩
      rintro rfl
      exact new before
  have left_ {after later : Context} (matched : after.Matches inside (id :: path) later) :
      Context.Matches inside path { after with inProgress := after.inProgress.erase id }
        { later with inProgress := later.inProgress.erase id } :=
    matched.progressed fun node mem =>
      ⟨leaves (matched.progress node mem).1, leaves (matched.progress node mem).2⟩
  obtain ⟨kept, corresponds⟩ := (h
    ⟨{ left with inProgress := left.inProgress.insert id },
      { session with depth := session.depth + 1 }⟩
    ⟨{ right with inProgress := right.inProgress.insert id },
      { other with depth := other.depth + 1 }⟩
    (matched.progressed fun node mem =>
      ⟨enters (matched.progress node mem).1, enters (matched.progress node mem).2⟩)).alike
  refine ⟨trivial, trivial, .inr ?_⟩
  rw [nested_eq, nested_eq]
  cases ran : step ⟨{ left with inProgress := left.inProgress.insert id },
      { session with depth := session.depth + 1 }⟩ with
  | mk outcome after =>
    cases ranAgain : again ⟨{ right with inProgress := right.inProgress.insert id },
        { other with depth := other.depth + 1 }⟩ with
    | mk result later =>
      rw [ran, ranAgain] at kept corresponds
      cases outcome with
      | error error =>
        cases result with
        | error same => exact ⟨left_ kept, corresponds⟩
        | ok value => exact corresponds.elim
      | ok value =>
        cases result with
        | error same => exact corresponds.elim
        | ok same =>
          cases (corresponds : value = same)
          exact ⟨(left_ kept).addValue id value, rfl⟩

/-- Evaluating a node inside has the same outcome in both machines. -/
theorem evaluateWithin_lockstep (evaluator : Evaluator) {nodes : List NodeId}
    (bound : ∀ id, inside id → id ∈ nodes) {budget other : Nat} (mem : inside id)
    (nodup : path.Nodup) (subset : path ⊆ nodes) (enough : nodes.length ≤ budget + path.length)
    (enoughOther : nodes.length ≤ other + path.length) :
    Eval.Lockstep inside path (evaluator.evaluateWithin budget id)
      (evaluator.evaluateWithin other id) := by
  induction budget generalizing other id path with
  | zero =>
    -- All nodes are in progress, so no thunk is run.
    have busy : id ∈ path := by
      by_contra new
      obtain ⟨rest, same, -⟩ :=
        Context.length_pos_of_not_mem nodup subset (bound id mem) new enough
      cases same
    cases other <;> exact lookup_lockstep mem fun _ _ new => absurd busy new
  | succ budget ih =>
    cases other with
    | zero =>
      have busy : id ∈ path := by
        by_contra new
        obtain ⟨rest, same, -⟩ :=
          Context.length_pos_of_not_mem nodup subset (bound id mem) new enoughOther
        cases same
      exact lookup_lockstep mem fun _ _ new => absurd busy new
    | succ other =>
      refine lookup_lockstep mem fun thunk within new => nested_lockstep new ?_
      have data := Recipe.isData_of_isLocal within.1
      rw [← Thunk.perform_inquiry evaluator.plan evaluator.limits _ id data,
        ← Thunk.perform_inquiry evaluator.plan evaluator.limits _ id data]
      refine Inquiry.perform_lockstep (fun source inner => ?_) _ _ id
        (Thunk.inquiry_quiet within.1 id) (Thunk.inquiry_within within.2 id)
      refine ih inner (List.nodup_cons.2 ⟨new, nodup⟩)
        (List.cons_subset.2 ⟨bound id mem, subset⟩) ?_ ?_
      · rw [List.length_cons]
        omega
      · rw [List.length_cons]
        omega

end Evaluator

end Steps

namespace Statement

variable {plan : Plan} {inside : NodeId → Prop} {evaluate again : NodeId → Eval Value}
  (evaluates : ∀ id, inside id → Eval.Lockstep inside [] (evaluate id) (again id))

include evaluates

theorem settle_lockstep {pending : List NodeId} (waiting : ∀ id ∈ pending, inside id)
    (affected : List NodeId) {left right : Machine}
    (matched : left.context.Matches inside [] right.context) :
    Eval.Meets (.alike inside []) left right (settle plan evaluate affected pending)
      (settle plan again affected pending)
      fun _ _ rest other => rest = other ∧ ∀ id ∈ rest, inside id := by
  induction pending generalizing affected left right with
  | nil => exact Eval.meets_pure matched ⟨rfl, nofun⟩
  | cons first pending ih =>
    have waitingFirst := waiting first List.mem_cons_self
    have rest (affected : List NodeId) {left right : Machine}
        (matched : left.context.Matches inside [] right.context) :=
      ih (fun id mem => waiting id (List.mem_cons_of_mem _ mem)) affected matched
    unfold settle
    split
    · refine ((evaluates first waitingFirst left right matched).attempt fun _ => id).bind
        fun after later outcome other matched _ corresponds => ?_
      cases corresponds.eq fun _ _ => id
      cases outcome with
      | ok value => exact rest _ matched
      | error error =>
        exact (Eval.meets_change (Context.Matches.fail matched first error)).bind
          fun _ _ _ _ matched _ _ => rest _ matched
    · refine (rest affected matched).bind fun after later left other matched _ alike => ?_
      obtain ⟨rfl, inner⟩ := alike
      exact Eval.meets_pure matched ⟨rfl, List.forall_mem_cons.2 ⟨waitingFirst, inner⟩⟩

/-- Statements about the nodes inside are executed in lockstep. -/
theorem shared_alike :
    Shared (.alike inside []) plan (fun _ => True) evaluate again inside inside
      fun _ => True where
  toTurns := Tandem.turns_alike inside
  unit := trivial
  evaluates id mem left right matched :=
    (evaluates id mem left right matched).imp fun _ _ _ _ _ same => ⟨same, trivial⟩
  settles affected _ _ _ _ waiting matched := settle_lockstep evaluates waiting affected matched
  assigns _ target value _ _ _ _ _ matched := Context.Matches.rebind matched target value

end Statement

end DeclLang
