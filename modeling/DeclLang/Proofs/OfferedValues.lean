import DeclLang.Proofs.DataEvaluation

/-!
# Values that a context offers

**Input.**  A context, and a region of data in it that a value can be derived from for one of the
nodes.

**Invariant.**  `Context.Offers`: the value can be derived, and nothing of the region is being
evaluated.

**Results.**  A context that offers a value goes on to do so whatever node is evaluated, if anything
fails that is not needed for the value, and if anything is assigned that is not in the region.
Evaluating the node gives the value that is offered.
-/

namespace DeclLang

open Step (Keeps Ensures)

/-- Only what is known about the nodes inside matters for the result of an inquiry about them. -/
theorem Inquiry.result?_of_within {inside : NodeId → Prop} {look more : NodeId → Option Value}
    (grows : ∀ id, inside id → ∀ value, look id = some value → more id = some value)
    {inquiry : Inquiry} (within : inquiry.Within inside) {value : Value}
    (h : inquiry.result? look = some value) : inquiry.result? more = some value := by
  induction inquiry with
  | answer outcome => exact h
  | call callee arguments result => exact h
  | ask id next ih =>
    obtain ⟨answer, known, h⟩ := Option.bind_eq_some_iff.1 h
    exact Option.bind_eq_some_iff.2
      ⟨answer, grows id within.1 answer known, ih answer (within.2 answer) h⟩

namespace Context

/-- The context has the values of `start` on the region, and others that can be derived there; its
recipes are the same but for nodes that have no value and have failed. -/
structure Succeeds (region : List NodeId) (start context : Context) : Prop where
  kept : ∀ id ∈ region, ∀ value, start.value? id = some value → context.value? id = some value
  derived : ∀ id ∈ region, ∀ value, context.value? id = some value → start.Derives id value
  recipes : ∀ id ∈ region, context.thunk? id = start.thunk? id ∨
    (∀ value, ¬start.Derives id value) ∧ ∃ error, context.thunk? id = some (.failed error)

/-- A value that is derived from a region of data while nothing of it is being evaluated. -/
structure Offers (region : List NodeId) (id : NodeId) (value : Value) (context : Context) :
    Prop where
  data : context.Data region
  mem : id ∈ region
  idle : ∀ other ∈ region, other ∉ context.inProgress
  derives : context.Derives id value

section

variable {region : List NodeId} {start context : Context} {id : NodeId} {value : Value}

theorem Retains.succeeds (retains : start.Retains region context) :
    start.Succeeds region context where
  kept := retains.kept
  derived := retains.derived
  recipes id mem := .inl (retains.recipes id mem)

/-- A context with the same values and recipes on the region. -/
theorem Succeeds.of_same (values : ∀ id ∈ region, context.value? id = start.value? id)
    (recipes : ∀ id ∈ region, context.thunk? id = start.thunk? id) :
    start.Succeeds region context where
  kept id mem _ known := (values id mem).trans known
  derived id mem _ known := ⟨0, (values id mem).symm.trans known⟩
  recipes id mem := .inl (recipes id mem)

variable (succeeds : start.Succeeds region context) (data : start.Data region)

include succeeds data

/-- What could be derived can still be derived. -/
theorem Succeeds.derive? {level : Nat} (mem : id ∈ region)
    (h : start.derive? level id = some value) : context.derive? level id = some value := by
  induction level generalizing id value with
  | zero => exact succeeds.kept id mem value h
  | succ level ih =>
    cases known : context.value? id with
    | some other =>
      rw [(succeeds.derived id mem other known).unique ⟨level + 1, h⟩] at known
      exact derive?_of_value known _
    | none =>
      rcases derive?_inv h with before | ⟨unknown, below, thunk, same, found, result⟩
      · rw [succeeds.kept id mem value before] at known
        cases known
      · cases same
        rcases succeeds.recipes id mem with recipe | ⟨nothing, -⟩
        · rw [derive?_of_thunk known (recipe.trans found)]
          exact Inquiry.result?_of_within (fun other inside answer => ih inside)
            (thunk.inquiry_within (data.recipe mem unknown found).2 id) result
        · exact absurd ⟨level + 1, h⟩ (nothing value)

theorem Succeeds.isData : context.Data region := by
  intro id mem
  unfold Context.isData
  cases known : context.value? id with
  | some value => exact (succeeds.derived id mem value known).inert data mem
  | none =>
    cases found : context.thunk? id with
    | none => rfl
    | some thunk =>
      rcases succeeds.recipes id mem with recipe | ⟨-, error, failed⟩
      · have unknown : start.value? id = none := by
          cases before : start.value? id with
          | none => rfl
          | some value =>
            rw [succeeds.kept id mem value before] at known
            cases known
        obtain ⟨isData, sources⟩ := data.recipe mem unknown (recipe.symm.trans found)
        exact Bool.and_eq_true_iff.2 ⟨isData, List.all_eq_true.2 fun source mem =>
          List.contains_iff_mem.2 (sources source mem)⟩
      · cases found.symm.trans failed
        rfl

end

namespace Offers

variable {region : List NodeId} {id : NodeId} {value : Value} {start context : Context}

theorem of_succeeds (offers : start.Offers region id value)
    (succeeds : start.Succeeds region context)
    (idle : ∀ other ∈ region, other ∉ context.inProgress) : context.Offers region id value where
  data := succeeds.isData offers.data
  mem := offers.mem
  idle
  derives :=
    have ⟨level, derived⟩ := offers.derives
    ⟨level, succeeds.derive? offers.data offers.mem derived⟩

variable (offers : start.Offers region id value)

include offers

/-- A value that is known is offered by its node alone. -/
theorem alone (known : start.value? id = some value) : start.Offers [id] id value where
  data other mem := by
    rw [List.mem_singleton.1 mem, isData, known]
    exact offers.data.inert offers.mem known
  mem := List.mem_cons_self
  idle other mem := List.mem_singleton.1 mem ▸ offers.idle id offers.mem
  derives := offers.derives

/-- Assignments to nodes outside of the region do not matter. -/
theorem rebind {target : NodeId} (other : target ∉ region) (assigned : Value) :
    (start.rebind target assigned).Offers region id value := by
  refine offers.of_succeeds (.of_same (fun node mem => ?_) fun _ _ => rfl) offers.idle
  have different : node ≠ target := by
    rintro rfl
    exact other mem
  rw [value?_rebind, if_neg different]

theorem adopt {turn : Context} (others : ∀ target ∈ turn.rebound, target ∉ region) :
    (start.adopt turn).Offers region id value := by
  refine offers.of_succeeds (.of_same (fun node mem => ?_) fun node _ => ?_) fun node mem => ?_
  · rw [value?_adopt, if_neg fun both => others node both.1 mem]
  · rw [thunk?, (adopt_rest turn).1]
    rfl
  · rw [(adopt_rest turn).2]
    exact offers.idle node mem

/-- What is computed anew for a turn of a loop does not matter if it is not in the region. -/
theorem turn {subtree : List NodeId} (others : ∀ node ∈ region, node ∉ subtree) :
    (start.copy.forget subtree).Offers region id value := by
  refine offers.of_succeeds (.of_same (fun node mem => ?_) fun _ _ => rfl) fun _ _ =>
    Std.TreeSet.not_mem_emptyc
  rw [value?_forget, if_neg fun both => others node mem both.1]
  rfl

/-- Nodes that have no value may fail. -/
theorem fail {node : NodeId} (error : EvalError)
    (nothing : node ∈ region → ∀ value, ¬start.Derives node value) :
    (start.addThunk node (.failed error)).Offers region id value := by
  refine offers.of_succeeds ⟨fun _ _ _ known => known, fun _ _ _ known => ⟨0, known⟩,
    fun other mem => ?_⟩ offers.idle
  rw [thunk?_addThunk]
  split
  · rename_i same
    subst same
    exact .inr ⟨nothing mem, error, rfl⟩
  · exact .inl rfl

end Offers

end Context

namespace Evaluator

variable {region : List NodeId} {id node : NodeId} {value : Value} {context : Context}

/-- A value that was computed is kept. -/
theorem value?_of_evaluateWithin {evaluator : Evaluator} {budget : Nat} {machine after : Machine}
    (h : evaluator.evaluateWithin budget id machine = (.ok value, after)) :
    after.context.value? id = some value := by
  have looked {run : Thunk → Eval Value} (looks : lookup run id machine = (.ok value, after))
      (ran : ∀ thunk, run thunk machine = (.ok value, after) →
        after.context.value? id = some value) : after.context.value? id = some value := by
    unfold lookup at looks
    obtain ⟨current, middle, same, looks⟩ := Step.bind_ok_inv looks
    cases same
    cases known : machine.context.value? id with
    | some other =>
      rw [known] at looks
      cases looks
      exact known
    | none =>
      rw [known] at looks
      dsimp only at looks
      cases found : machine.context.thunk? id with
      | none =>
        rw [found] at looks
        cases looks
      | some thunk =>
        rw [found] at looks
        dsimp only at looks
        by_cases busy : machine.context.inProgress.contains id
        · rw [if_pos busy] at looks
          cases looks
        · rw [if_neg busy] at looks
          exact ran thunk looks
  cases budget with
  | zero => exact looked h fun thunk failed => by cases failed
  | succ budget =>
    refine looked h fun thunk ran => ?_
    obtain ⟨context, session⟩ := machine
    rw [nested_eq] at ran
    split at ran
    · cases ran
      rw [Context.value?_conclude, if_pos rfl]
    · cases ran

section

variable (evaluator : Evaluator) {machine : Machine} (data : machine.context.Data region)
  (idle : ∀ other ∈ region, other ∉ machine.context.inProgress)

include data

include idle in
/-- Whatever node is evaluated, nothing changes on the region but that values are kept. -/
theorem along_evaluateWithin (budget : Nat) (node : NodeId) :
    machine.context.Along region [] (evaluator.evaluateWithin budget node machine).2.context := by
  have rests : Rests region machine.context machine :=
    ⟨⟨.refl region _, fun other mem => iff_of_false (idle other mem) List.not_mem_nil⟩, trivial⟩
  exact (evaluateWithin_rests data evaluator budget node machine rests).1.1

/-- If evaluations may be nested deeply enough, evaluation gives what can be derived, also later
on. -/
theorem evaluateWithin_ok_iff (mem : node ∈ region) {budget : Nat}
    (enough : region.length ≤ budget) {later : Machine}
    (along : machine.context.Along region [] later.context) :
    (evaluator.evaluateWithin budget node later).1 = .ok value ↔
      machine.context.Derives node value := by
  have await : machine.context.Await [] node := fun _ mem => absurd mem List.not_mem_nil
  have explores : (evaluator.evaluateWithin budget node later).1 =
      machine.context.explore region.length [] node := by
    rcases (evaluateWithin_explores data mem List.nodup_nil (List.nil_subset _) await
      (Nat.le_refl _) evaluator budget later along).2 with same | ⟨deep, -⟩
    · exact same
    · rw [List.length_nil] at deep
      omega
  rw [explores]
  exact ⟨Context.derives_of_explore data mem, Context.explore_of_derives data mem List.nodup_nil
    (List.nil_subset _) await (Nat.le_refl _)⟩

end

/-- What is offered is still offered after any evaluation. -/
theorem offers_evaluateWithin (evaluator : Evaluator) {machine : Machine}
    (offers : machine.context.Offers region id value) (budget : Nat) (node : NodeId) :
    (evaluator.evaluateWithin budget node machine).2.context.Offers region id value := by
  have along := along_evaluateWithin evaluator offers.data offers.idle budget node
  exact offers.of_succeeds along.1.succeeds fun other mem busy =>
    List.not_mem_nil ((along.2 other mem).1 busy)

/-- What is offered is given. -/
theorem evaluateWithin_of_offers (evaluator : Evaluator) {machine : Machine}
    (offers : machine.context.Offers region id value) {budget : Nat}
    (enough : region.length ≤ budget) :
    (evaluator.evaluateWithin budget id machine).1 = .ok value := by
  have along : machine.context.Along region [] machine.context :=
    ⟨.refl region _, fun other mem => iff_of_false (offers.idle other mem) List.not_mem_nil⟩
  exact (evaluateWithin_ok_iff evaluator offers.data offers.mem enough along).2
    offers.derives

end Evaluator

end DeclLang
