import DeclLang.Evaluation.Context
import DeclLang.Proofs.InertValues
import DeclLang.Proofs.ValueErrors
import Mathlib.Logic.Relation

/-!
# Graphs of thunks

**Input.**  A context, and for every node what its thunk makes of the values of its dependencies.

**Algorithm.**  `Context.depthFirst` evaluates a node from left to right and keeps nothing.  It
knows the path of the nodes that are being evaluated, and fails when it comes back to one of them.
The path can only be as long as there are thunks, so it ends on every graph.

**Results.**
* `Context.grounded_of_depthFirst`: what is evaluated needs only nodes that are defined, and no node
  in it needs itself.
* `Context.depthFirst_eq_of_recursion`: of such nodes, depth-first evaluation is the only solution
  of the recursion that knows no path.
* `Context.failure_of_depthFirst`: the three ways to fail.
* `Context.depthFirst_congr`: only nodes on the path that are needed matter.
-/

namespace DeclLang

open Relation (ReflTransGen TransGen)

/-- What the thunks of nodes make of the values of their dependencies. -/
abbrev Materializers := NodeId → List Value → Except EvalError Value

section Lists

variable {ε α β : Type} {items : List α} {f g : α → Except ε β}

/-- The items of a list of which all succeed succeed. -/
theorem ok_of_mem_mapM {results : List β} (ran : items.mapM f = .ok results) {a : α}
    (mem : a ∈ items) : ∃ b, f a = .ok b := by
  induction items generalizing results with
  | nil => cases mem
  | cons first items ih =>
    rw [List.mapM_cons] at ran
    cases here : f first with
    | error error =>
      rw [here] at ran
      cases ran
    | ok b =>
      cases later : items.mapM f with
      | error error =>
        rw [here, later] at ran
        cases ran
      | ok rest =>
        rcases List.mem_cons.1 mem with rfl | mem
        · exact ⟨b, here⟩
        · exact ih later mem

/-- A list of which all items succeed in the same way succeeds. -/
theorem mapM_ok_of_mem {results : List β} (h : ∀ a ∈ items, ∀ b, f a = .ok b → g a = .ok b)
    (ran : items.mapM f = .ok results) : items.mapM g = .ok results := by
  refine (mapM_congr_of_mem fun a mem => ?_).trans ran
  obtain ⟨b, succeeds⟩ := ok_of_mem_mapM ran mem
  rw [succeeds, h a mem b succeeds]

end Lists

namespace Context

/-- The node has no value, and its thunk depends on the other node. -/
def Needs (context : Context) (id other : NodeId) : Prop :=
  context.value? id = none ∧
    ∃ thunk, context.thunk? id = some thunk ∧ other ∈ thunk.dependencies

/-- The nodes with a thunk that are not on a path. -/
def offPath (context : Context) (path : List NodeId) : List NodeId :=
  context.thunks.keys.filter (· ∉ path)

theorem mem_keys {context : Context} {id : NodeId} {thunk : Thunk}
    (found : context.thunk? id = some thunk) : id ∈ context.thunks.keys := by
  rw [Std.TreeMap.mem_keys, Std.TreeMap.mem_iff_isSome_getElem?]
  rw [show context.thunks[id]? = some thunk from found]
  rfl

theorem offPath_lt {context : Context} {id : NodeId} {thunk : Thunk} {path : List NodeId}
    (found : context.thunk? id = some thunk) (off : id ∉ path) :
    (context.offPath (id :: path)).length < (context.offPath path).length := by
  have longer : context.offPath (id :: path) = (context.offPath path).filter (· ≠ id) := by
    simp [offPath, List.filter_filter]
  rw [longer, List.length_filter_lt_length_iff_exists]
  exact ⟨id, List.mem_filter.2 ⟨mem_keys found, by simpa using off⟩, by simp⟩

section DepthFirst

variable (context : Context) (compute : Materializers)

/-- Evaluates a node from left to right.  The path holds the nodes that are being evaluated. -/
def depthFirst (path : List NodeId) (id : NodeId) : Except EvalError Value :=
  match context.value? id with
  | some value => .ok value
  | none =>
    match _found : context.thunk? id with
    | none => .error (.missingValue id)
    | some thunk =>
      if _off : id ∈ path then .error (.cycle id)
      else do compute id (← thunk.dependencies.mapM (depthFirst (id :: path)))
termination_by (context.offPath path).length
decreasing_by exact offPath_lt _found _off

/-- One step of the recursion that knows no path. -/
def recursion (evaluate : NodeId → Except EvalError Value) (id : NodeId) :
    Except EvalError Value :=
  match context.value? id with
  | some value => .ok value
  | none =>
    match context.thunk? id with
    | none => .error (.missingValue id)
    | some thunk => do compute id (← thunk.dependencies.mapM evaluate)

/-- Everything that the node needs, itself included, is defined, and nothing in it needs itself. -/
structure Grounded (id : NodeId) : Prop where
  defined : ∀ other, ReflTransGen context.Needs id other →
    (context.value? other).isSome ∨ (context.thunk? other).isSome
  acyclic : ∀ other, ReflTransGen context.Needs id other → ¬ TransGen context.Needs other other

variable {context compute} {path : List NodeId} {id : NodeId}

theorem depthFirst_value {value : Value} (known : context.value? id = some value) :
    context.depthFirst compute path id = .ok value := by
  rw [depthFirst, known]

theorem depthFirst_missing (unknown : context.value? id = none)
    (undefined : context.thunk? id = none) :
    context.depthFirst compute path id = .error (.missingValue id) := by
  rw [depthFirst, unknown]
  dsimp only
  split
  · rfl
  · rename_i found
    rw [undefined] at found
    cases found

theorem depthFirst_cycle {thunk : Thunk} (unknown : context.value? id = none)
    (found : context.thunk? id = some thunk) (on : id ∈ path) :
    context.depthFirst compute path id = .error (.cycle id) := by
  rw [depthFirst, unknown]
  dsimp only
  split
  · rename_i undefined
    rw [found] at undefined
    cases undefined
  · rw [dif_pos on]

theorem depthFirst_run {thunk : Thunk} (unknown : context.value? id = none)
    (found : context.thunk? id = some thunk) (off : id ∉ path) :
    context.depthFirst compute path id =
      (thunk.dependencies.mapM (context.depthFirst compute (id :: path)) >>= compute id) := by
  rw [depthFirst, unknown]
  dsimp only
  split
  · rename_i undefined
    rw [found] at undefined
    cases undefined
  · rename_i other same
    rw [found] at same
    cases same
    rw [dif_neg off]

theorem needs_of_mem {thunk : Thunk} {other : NodeId} (unknown : context.value? id = none)
    (found : context.thunk? id = some thunk) (mem : other ∈ thunk.dependencies) :
    context.Needs id other :=
  ⟨unknown, thunk, found, mem⟩

/-- An evaluation that succeeds found a value, or it was off the path and succeeds for all
dependencies. -/
theorem depthFirst_ok {value : Value} (h : context.depthFirst compute path id = .ok value) :
    context.value? id = some value ∨ context.value? id = none ∧ id ∉ path ∧
      ∃ thunk values, context.thunk? id = some thunk ∧
        thunk.dependencies.mapM (context.depthFirst compute (id :: path)) = .ok values ∧
        compute id values = .ok value := by
  cases unknown : context.value? id with
  | some own =>
    rw [depthFirst_value unknown] at h
    cases h
    exact .inl rfl
  | none =>
    right
    cases found : context.thunk? id with
    | none =>
      rw [depthFirst_missing unknown found] at h
      cases h
    | some thunk =>
      by_cases on : id ∈ path
      · rw [depthFirst_cycle unknown found on] at h
        cases h
      · rw [depthFirst_run unknown found on] at h
        cases ran : thunk.dependencies.mapM (context.depthFirst compute (id :: path)) with
        | error error =>
          rw [ran] at h
          cases h
        | ok values =>
          rw [ran] at h
          exact ⟨rfl, on, thunk, values, rfl, ran, h⟩

/-- Only nodes on the path that are needed matter. -/
theorem depthFirst_congr {other : List NodeId}
    (same : ∀ node, ReflTransGen context.Needs id node → (node ∈ path ↔ node ∈ other)) :
    context.depthFirst compute path id = context.depthFirst compute other id := by
  fun_induction depthFirst context compute path id generalizing other with
  | case1 path id value known => rw [depthFirst_value known]
  | case2 path id unknown undefined => rw [depthFirst_missing unknown undefined]
  | case3 path id unknown thunk found on =>
    rw [depthFirst_cycle unknown found ((same id .refl).1 on)]
  | case4 path id unknown thunk found off ih =>
    rw [depthFirst_run unknown found (mt (same id .refl).2 off)]
    refine congrArg (· >>= compute id) (mapM_congr_of_mem fun dependency mem => ?_)
    refine ih dependency fun node reached => ?_
    rw [List.mem_cons, List.mem_cons,
      same node (.head (needs_of_mem unknown found mem) reached)]

/-- What succeeds on a path succeeds on a part of it. -/
theorem depthFirst_subset {other : List NodeId} (subset : other ⊆ path) {value : Value}
    (h : context.depthFirst compute path id = .ok value) :
    context.depthFirst compute other id = .ok value := by
  fun_induction depthFirst context compute path id generalizing other value with
  | case1 path id own known =>
    rw [depthFirst_value known]
    exact h
  | case2 => cases h
  | case3 => cases h
  | case4 path id unknown thunk found off ih =>
    rw [depthFirst_run unknown found (mt (subset ·) off)]
    cases ran : thunk.dependencies.mapM (context.depthFirst compute (id :: path)) with
    | error error =>
      rw [ran] at h
      cases h
    | ok values =>
      have again : thunk.dependencies.mapM (context.depthFirst compute (id :: other)) =
          .ok values :=
        mapM_ok_of_mem (fun dependency mem value succeeds =>
          ih dependency (List.cons_subset_cons id subset) succeeds) ran
      rw [ran] at h
      rw [again]
      exact h

/-- All that an evaluation that succeeds needs is evaluated on a longer path, and succeeds. -/
theorem depthFirst_ok_of_needs {other : NodeId} (needs : TransGen context.Needs id other)
    {value : Value} (h : context.depthFirst compute path id = .ok value) :
    ∃ longer result, id ∈ longer ∧ path ⊆ longer ∧
      context.depthFirst compute longer other = .ok result := by
  induction needs using TransGen.head_induction_on generalizing path value with
  | @single id first =>
    obtain ⟨unknown, thunk, found, mem⟩ := first
    rcases depthFirst_ok h with known | ⟨-, -, again, values, same, ran, -⟩
    · rw [unknown] at known
      cases known
    · rw [found] at same
      cases same
      obtain ⟨result, succeeds⟩ := ok_of_mem_mapM ran mem
      exact ⟨id :: path, result, List.mem_cons_self, List.subset_cons_self _ _, succeeds⟩
  | @head id middle first rest ih =>
    obtain ⟨unknown, thunk, found, mem⟩ := first
    rcases depthFirst_ok h with known | ⟨-, -, again, values, same, ran, -⟩
    · rw [unknown] at known
      cases known
    · rw [found] at same
      cases same
      obtain ⟨result, succeeds⟩ := ok_of_mem_mapM ran mem
      obtain ⟨longer, last, -, subset, final⟩ := ih succeeds
      exact ⟨longer, last, subset List.mem_cons_self,
        fun node inside => subset (List.mem_cons_of_mem _ inside), final⟩

/-- What is evaluated needs only nodes that are defined, and none of them needs itself. -/
theorem grounded_of_depthFirst {value : Value}
    (h : context.depthFirst compute path id = .ok value) : context.Grounded id := by
  have reached (other : NodeId) (needs : ReflTransGen context.Needs id other) :
      ∃ longer result, context.depthFirst compute longer other = .ok result := by
    rcases Relation.reflTransGen_iff_eq_or_transGen.1 needs with rfl | needs
    · exact ⟨path, value, h⟩
    · obtain ⟨longer, result, -, -, succeeds⟩ := depthFirst_ok_of_needs needs h
      exact ⟨longer, result, succeeds⟩
  constructor
  · intro other needs
    obtain ⟨longer, result, succeeds⟩ := reached other needs
    rcases depthFirst_ok succeeds with known | ⟨-, -, thunk, -, found, -⟩
    · exact .inl (by rw [known]; rfl)
    · exact .inr (by rw [found]; rfl)
  · intro other needs cycle
    obtain ⟨longer, result, succeeds⟩ := reached other needs
    -- The node would be evaluated once more while it is on the path.
    obtain ⟨longest, again, on, -, succeedsAgain⟩ := depthFirst_ok_of_needs cycle succeeds
    have unknown : context.value? other = none := by
      obtain ⟨next, first, -⟩ := TransGen.head'_iff.1 cycle
      exact first.1
    rcases depthFirst_ok succeedsAgain with known | ⟨-, off, -⟩
    · rw [unknown] at known
      cases known
    · exact off on

/-- If no node in it needs itself, depth-first evaluation follows the recursion that knows no
path. -/
theorem depthFirst_recursion (acyclic : ¬ TransGen context.Needs id id) :
    context.depthFirst compute [] id =
      context.recursion compute (context.depthFirst compute []) id := by
  unfold recursion
  cases unknown : context.value? id with
  | some value => rw [depthFirst_value unknown]
  | none =>
    cases found : context.thunk? id with
    | none => rw [depthFirst_missing unknown found]
    | some thunk =>
      rw [depthFirst_run unknown found List.not_mem_nil]
      refine congrArg (· >>= compute id) (mapM_congr_of_mem fun dependency mem => ?_)
      refine depthFirst_congr fun node reached => ?_
      refine iff_of_false (fun on => acyclic ?_) List.not_mem_nil
      cases List.mem_singleton.1 on
      exact .head' (needs_of_mem unknown found mem) reached

/-- If no node in it needs itself, the recursion that knows no path has no other solution. -/
theorem depthFirst_eq_of_recursion {evaluate : NodeId → Except EvalError Value}
    (acyclic : ∀ other, ReflTransGen context.Needs id other → ¬ TransGen context.Needs other other)
    (solves : ∀ other, ReflTransGen context.Needs id other →
      evaluate other = context.recursion compute evaluate other)
    (off : ∀ other ∈ path, ¬ ReflTransGen context.Needs id other) :
    context.depthFirst compute path id = evaluate id := by
  have here := solves id .refl
  unfold recursion at here
  fun_induction depthFirst context compute path id with
  | case1 path id value known => rw [here, known]
  | case2 path id unknown undefined => rw [here, unknown, undefined]
  | case3 path id unknown thunk found on => exact absurd .refl (off id on)
  | case4 path id unknown thunk found idle ih =>
    rw [here, unknown, found]
    refine congrArg (· >>= compute id) (mapM_congr_of_mem fun dependency mem => ?_)
    have first := needs_of_mem unknown found mem
    refine ih dependency (fun other reached => acyclic other (.head first reached))
      (fun other reached => solves other (.head first reached)) (fun other on reached => ?_)
      (solves dependency (.single first))
    rcases List.mem_cons.1 on with rfl | on
    · exact acyclic other .refl (.head' first reached)
    · exact off other on (.head first reached)

/-- Why the evaluation of a node fails, and where. -/
inductive Failure (context : Context) (compute : Materializers) (id : NodeId) : EvalError → Prop
  /-- A needed node is not defined. -/
  | missing {other : NodeId} (needed : ReflTransGen context.Needs id other)
    (unknown : context.value? other = none) (undefined : context.thunk? other = none) :
    Failure context compute id (.missingValue other)
  /-- A needed node needs itself. -/
  | cycle {other : NodeId} (needed : ReflTransGen context.Needs id other)
    (again : TransGen context.Needs other other) : Failure context compute id (.cycle other)
  /-- The thunk of a needed node fails on the values of its dependencies. -/
  | computed {other : NodeId} {thunk : Thunk} {values : List Value} {error : EvalError}
    (needed : ReflTransGen context.Needs id other) (found : context.thunk? other = some thunk)
    (ran : thunk.dependencies.mapM (context.depthFirst compute []) = .ok values)
    (fails : compute other values = .error error) : Failure context compute id error

theorem Failure.of_needs {middle : NodeId} {error : EvalError} (needs : context.Needs id middle)
    (failure : Failure context compute middle error) : Failure context compute id error := by
  cases failure with
  | missing needed unknown undefined => exact .missing (.head needs needed) unknown undefined
  | cycle needed again => exact .cycle (.head needs needed) again
  | computed needed found ran fails => exact .computed (.head needs needed) found ran fails

/-- There are no other failures. -/
theorem failure_of_depthFirst {error : EvalError}
    (along : ∀ other ∈ path, TransGen context.Needs other id)
    (h : context.depthFirst compute path id = .error error) :
    Failure context compute id error := by
  fun_induction depthFirst context compute path id with
  | case1 => cases h
  | case2 path id unknown undefined =>
    cases h
    exact .missing .refl unknown undefined
  | case3 path id unknown thunk found on =>
    cases h
    exact .cycle .refl (along id on)
  | case4 path id unknown thunk found off ih =>
    cases ran : thunk.dependencies.mapM (context.depthFirst compute (id :: path)) with
    | error other =>
      rw [ran] at h
      cases h
      obtain ⟨dependency, mem, fails⟩ := exists_of_mapM_error ran
      have needs := needs_of_mem unknown found mem
      refine .of_needs needs (ih dependency (fun other on => ?_) fails)
      rcases List.mem_cons.1 on with rfl | on
      · exact .single needs
      · exact (along other on).tail needs
    | ok values =>
      rw [ran] at h
      exact .computed .refl found
        (mapM_ok_of_mem (fun _ _ _ => depthFirst_subset (List.nil_subset _)) ran) h

end DepthFirst

end Context

end DeclLang
