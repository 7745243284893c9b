import Mathlib.Data.List.Perm.Subperm
import DeclLang.Proofs.InertValues

/-!
# Evaluation of data, without memory

**Input.**  A context, and a region of nodes that are evaluated by nothing but values of the region.

**Algorithm.**  `Context.explore` walks depth first through the recipes.  It keeps no value; it
knows the path from where it started, and fails when a node is needed for its own value.

**Results.**  `Context.Derives` says that a node has a value, whatever path leads to it.
* `Context.derives_of_explore`: a value that is found is derived.
* `Context.explore_of_derives`: a value that is derived is found on every path whose nodes await it,
  if the walk may be as long as there are nodes in the region.
-/

namespace DeclLang

namespace Inquiry

/-- An inquiry that is told what is known comes to ask for a node. -/
inductive Asks (knows : NodeId → Value → Prop) : Inquiry → NodeId → Prop
  | first {id : NodeId} {next : Value → Inquiry} : Asks knows (.ask id next) id
  | later {id other : NodeId} {next : Value → Inquiry} {value : Value} (known : knows id value)
    (asks : Asks knows (next value) other) : Asks knows (.ask id next) other

/-- The outcome of an inquiry, given the outcomes for the nodes that it asks for. -/
def outcome (look : NodeId → Except EvalError Value) : Inquiry → Except EvalError Value
  | .answer outcome => outcome
  | .call callee arguments result => Call.native callee arguments result
  | .ask id next =>
    match look id with
    | .ok value => (next value).outcome look
    | .error error => .error error

section

variable {inside : NodeId → Prop} {knows : NodeId → Value → Prop} {inquiry : Inquiry}
  {look : NodeId → Option Value} {find : NodeId → Except EvalError Value} {value : Value}

theorem Asks.mem {id : NodeId} (asks : inquiry.Asks knows id) (within : inquiry.Within inside) :
    inside id := by
  induction asks with
  | first => exact within.1
  | later _ _ ih => exact ih (within.2 _)

/-- An inquiry with a result was told everything that it asks for. -/
theorem Asks.look_isSome {id : NodeId} (asks : inquiry.Asks knows id)
    (agree : ∀ id value other, look id = some value → knows id other → value = other)
    (h : inquiry.result? look = some value) : ∃ answer, look id = some answer := by
  induction asks with
  | first =>
    obtain ⟨answer, found, -⟩ := Option.bind_eq_some_iff.1 h
    exact ⟨answer, found⟩
  | later known _ ih =>
    obtain ⟨answer, found, h⟩ := Option.bind_eq_some_iff.1 h
    cases agree _ _ _ found known
    exact ih h

theorem result?_of_outcome (within : inquiry.Within inside)
    (each : ∀ id, inside id → ∀ value, find id = .ok value → look id = some value)
    (h : inquiry.outcome find = .ok value) : inquiry.result? look = some value := by
  induction inquiry with
  | answer own =>
    rw [outcome] at h
    rw [result?, h]
    rfl
  | call callee arguments result =>
    rw [outcome] at h
    rw [result?, h]
    rfl
  | ask id next ih =>
    rw [outcome] at h
    split at h
    · rename_i answer found
      exact Option.bind_eq_some_iff.2
        ⟨answer, each id within.1 answer found, ih answer (within.2 answer) h⟩
    · cases h

theorem outcome_of_result? (known : ∀ id value, look id = some value → knows id value)
    (each : ∀ id value, inquiry.Asks knows id → look id = some value → find id = .ok value)
    (h : inquiry.result? look = some value) : inquiry.outcome find = .ok value := by
  induction inquiry with
  | answer outcome =>
    cases outcome with
    | error error => cases h
    | ok own => exact congrArg Except.ok (Option.some.inj h)
  | call callee arguments result =>
    rw [result?] at h
    rw [outcome]
    cases native : Call.native callee arguments result with
    | error error =>
      rw [native] at h
      cases h
    | ok own =>
      rw [native] at h
      exact congrArg Except.ok (Option.some.inj h)
  | ask id next ih =>
    obtain ⟨answer, found, h⟩ := Option.bind_eq_some_iff.1 h
    rw [outcome, each id answer .first found]
    exact ih answer (fun other value asks => each other value (.later (known id answer found) asks))
      h

end

end Inquiry

namespace Context

/-- The value of a node, when so many recipes may be nested. -/
def derive? (context : Context) : Nat → NodeId → Option Value
  | 0, id => context.value? id
  | nested + 1, id =>
    match context.value? id with
    | some value => some value
    | none => (context.thunk? id).bind fun thunk =>
        (thunk.inquiry id).result? (derive? context nested)

/-- Following recipes gives the node a value. -/
def Derives (context : Context) (id : NodeId) (value : Value) : Prop :=
  ∃ level, context.derive? level id = some value

/-- Walks through the recipes from a node.  The path holds the nodes that are needed for. -/
def explore (context : Context) : Nat → List NodeId → NodeId → Except EvalError Value
  | 0, path, id =>
    match context.value? id, context.thunk? id with
    | some value, _ => .ok value
    | none, none => .error (.missingValue id)
    | none, some _ =>
      if id ∈ path then .error (.cycle id)
      else .error (.depthExceeded (path.length + 1) path.length)
  | length + 1, path, id =>
    match context.value? id, context.thunk? id with
    | some value, _ => .ok value
    | none, none => .error (.missingValue id)
    | none, some thunk =>
      if id ∈ path then .error (.cycle id)
      else (thunk.inquiry id).outcome (explore context length (id :: path))

/-- A node of data: it has a value without functions of the program, or a recipe that needs nothing
but values of the region. -/
def isData (region : List NodeId) (context : Context) (id : NodeId) : Bool :=
  match context.value? id, context.thunk? id with
  | some value, _ => value.inert
  | none, none => true
  | none, some thunk => thunk.recipe.isData && thunk.sources.all region.contains

/-- A region of data. -/
def Data (region : List NodeId) (context : Context) : Prop :=
  ∀ id ∈ region, context.isData region id = true

instance (region : List NodeId) (context : Context) : Decidable (context.Data region) :=
  inferInstanceAs (Decidable (∀ id ∈ region, context.isData region id = true))

section

variable {region : List NodeId} {context : Context} {id : NodeId} {value : Value}

theorem Data.inert (data : context.Data region) (mem : id ∈ region)
    (known : context.value? id = some value) : value.inert = true := by
  have node := data id mem
  rwa [isData, known] at node

theorem Data.recipe (data : context.Data region) (mem : id ∈ region)
    (unknown : context.value? id = none) {thunk : Thunk} (found : context.thunk? id = some thunk) :
    thunk.recipe.isData ∧ ∀ source ∈ thunk.sources, source ∈ region := by
  have node := data id mem
  rw [isData, unknown, found] at node
  obtain ⟨recipe, inside⟩ := Bool.and_eq_true_iff.1 node
  exact ⟨recipe, fun other mem => List.contains_iff_mem.1 (List.all_eq_true.1 inside other mem)⟩

theorem derive?_of_value (known : context.value? id = some value) (level : Nat) :
    context.derive? level id = some value := by
  cases level with
  | zero => exact known
  | succ level => rw [derive?, known]

theorem derive?_of_thunk (unknown : context.value? id = none) {thunk : Thunk}
    (found : context.thunk? id = some thunk) (level : Nat) :
    context.derive? (level + 1) id = (thunk.inquiry id).result? (context.derive? level) := by
  rw [derive?, unknown, found]
  rfl

/-- What is derived without a value has a recipe that gives it. -/
theorem derive?_inv {level : Nat} (h : context.derive? level id = some value) :
    context.value? id = some value ∨ context.value? id = none ∧
      ∃ below thunk, level = below + 1 ∧ context.thunk? id = some thunk ∧
        (thunk.inquiry id).result? (context.derive? below) = some value := by
  cases level with
  | zero => exact .inl h
  | succ below =>
    cases known : context.value? id with
    | some other =>
      rw [derive?_of_value known] at h
      exact .inl h
    | none =>
      rw [derive?, known] at h
      obtain ⟨thunk, found, result⟩ := Option.bind_eq_some_iff.1 h
      exact .inr ⟨rfl, below, thunk, rfl, found, result⟩

theorem derive?_mono {level more : Nat} (le : level ≤ more)
    (h : context.derive? level id = some value) : context.derive? more id = some value := by
  induction more generalizing level id value with
  | zero =>
    cases Nat.le_zero.1 le
    exact h
  | succ more ih =>
    rcases derive?_inv h with known | ⟨unknown, below, thunk, rfl, found, result⟩
    · exact derive?_of_value known _
    · rw [derive?_of_thunk unknown found]
      exact Inquiry.result?_mono (fun _ _ => ih (Nat.le_of_succ_le_succ le)) result

/-- A node has one value only. -/
theorem Derives.unique {other : Value} (h : context.Derives id value)
    (again : context.Derives id other) : value = other := by
  obtain ⟨first, h⟩ := h
  obtain ⟨second, again⟩ := again
  have both := derive?_mono (Nat.le_max_left first second) h
  rw [derive?_mono (Nat.le_max_right first second) again] at both
  exact (Option.some.inj both).symm

/-- Values of data are without functions of the program. -/
theorem Derives.inert (data : context.Data region) (mem : id ∈ region)
    (h : context.Derives id value) : value.inert = true := by
  obtain ⟨level, h⟩ := h
  induction level generalizing id value with
  | zero => exact data.inert mem h
  | succ level ih =>
    rcases derive?_inv h with known | ⟨unknown, below, thunk, same, found, result⟩
    · exact data.inert mem known
    · cases same
      obtain ⟨recipe, sources⟩ := data.recipe mem unknown found
      exact Inquiry.Inert.result? (Thunk.inquiry_inert recipe id)
        (thunk.inquiry_within sources id) (fun other mem answer known => ih mem known) result

/-- A value that a walk finds does not depend on its path. -/
theorem derives_of_explore (data : context.Data region) (mem : id ∈ region) {length : Nat}
    {path : List NodeId} (h : context.explore length path id = .ok value) :
    context.Derives id value := by
  refine ⟨length, ?_⟩
  induction length generalizing id value path with
  | zero =>
    rw [explore] at h
    split at h
    · rename_i known
      cases h
      exact known
    · cases h
    · split at h <;> cases h
  | succ length ih =>
    rw [explore] at h
    split at h
    · rename_i known
      cases h
      exact derive?_of_value known _
    · cases h
    · rename_i thunk unknown found
      split at h
      · cases h
      · rw [derive?_of_thunk unknown found]
        have inside := thunk.inquiry_within (data.recipe mem unknown found).2 id
        exact Inquiry.result?_of_outcome inside (fun other mem answer => ih mem) h

variable (context) in
/-- Every node of the path needs the node, so that it has a value only after the node. -/
def Await (path : List NodeId) (id : NodeId) : Prop :=
  ∀ other ∈ path, ∀ level value, context.derive? level other = some value →
    ∃ below answer, below < level ∧ context.derive? below id = some answer

/-- Nothing that has a value needs itself. -/
theorem Await.not_mem {path : List NodeId} (await : context.Await path id)
    (derives : context.Derives id value) : id ∉ path := by
  intro mem
  obtain ⟨level, derived⟩ := derives
  induction level using Nat.strongRecOn generalizing value with
  | ind level ih =>
    obtain ⟨below, answer, less, derived⟩ := await id mem level value derived
    exact ih below less derived

/-- The nodes of the path, and a node that is evaluated, await what its recipe asks for. -/
theorem Await.ask {path : List NodeId} (await : context.Await path id)
    (unknown : context.value? id = none) {thunk : Thunk} (found : context.thunk? id = some thunk)
    {source : NodeId} (asks : (thunk.inquiry id).Asks context.Derives source) :
    context.Await (id :: path) source := by
  have step {level : Nat} {value : Value} (derived : context.derive? level id = some value) :
      ∃ below answer, below < level ∧ context.derive? below source = some answer := by
    rcases derive?_inv derived with known | ⟨-, below, other, rfl, same, result⟩
    · rw [unknown] at known
      cases known
    · cases found.symm.trans same
      obtain ⟨answer, derived⟩ := asks.look_isSome
        (fun _ _ _ derived derives => Derives.unique ⟨below, derived⟩ derives) result
      exact ⟨below, answer, Nat.lt_succ_self below, derived⟩
  rintro other (_ | ⟨_, before⟩) level value derived
  · exact step derived
  · obtain ⟨between, answer, less, derived⟩ := await other before level value derived
    obtain ⟨below, answer, lesser, derived⟩ := step derived
    exact ⟨below, answer, Nat.lt_trans lesser less, derived⟩

theorem explore_missing (unknown : context.value? id = none) (missing : context.thunk? id = none)
    (length : Nat) (path : List NodeId) :
    context.explore length path id = .error (.missingValue id) := by
  cases length <;> rw [explore, unknown, missing]

theorem explore_cycle (unknown : context.value? id = none) {thunk : Thunk}
    (found : context.thunk? id = some thunk) (length : Nat) {path : List NodeId} (mem : id ∈ path) :
    context.explore length path id = .error (.cycle id) := by
  cases length <;> rw [explore, unknown, found] <;> exact if_pos mem

theorem explore_thunk (unknown : context.value? id = none) {thunk : Thunk}
    (found : context.thunk? id = some thunk) (length : Nat) {path : List NodeId} (new : id ∉ path) :
    context.explore (length + 1) path id =
      (thunk.inquiry id).outcome (context.explore length (id :: path)) := by
  rw [explore, unknown, found]
  exact if_neg new

/-- A walk as long as the region ends before it leaves the region. -/
theorem length_pos_of_not_mem {path : List NodeId} (nodup : path.Nodup) (subset : path ⊆ region)
    (mem : id ∈ region) (new : id ∉ path) {length : Nat}
    (enough : region.length ≤ length + path.length) :
    ∃ rest, length = rest + 1 ∧ region.length ≤ rest + (id :: path).length := by
  have more : (id :: path).length ≤ region.length :=
    (List.subperm_of_subset (List.nodup_cons.2 ⟨new, nodup⟩)
      (List.cons_subset.2 ⟨mem, subset⟩)).length_le
  rw [List.length_cons] at more
  refine ⟨length - 1, ?_, ?_⟩
  · omega
  · rw [List.length_cons]
    omega

/-- What is derived is found on every path whose nodes await it. -/
theorem explore_of_derives (data : context.Data region) (mem : id ∈ region) {path : List NodeId}
    (nodup : path.Nodup) (subset : path ⊆ region) (await : context.Await path id) {length : Nat}
    (enough : region.length ≤ length + path.length) (derives : context.Derives id value) :
    context.explore length path id = .ok value := by
  have new := await.not_mem derives
  obtain ⟨rest, rfl, further⟩ := length_pos_of_not_mem nodup subset mem new enough
  clear enough
  obtain ⟨level, derived⟩ := derives
  induction level generalizing id value path rest with
  | zero =>
    rw [explore, show context.value? id = some value from derived]
  | succ level ih =>
    rcases derive?_inv derived with known | ⟨unknown, below, thunk, same, found, result⟩
    · rw [explore, known]
    cases same
    rw [explore_thunk unknown found rest new]
    have inside := thunk.inquiry_within (data.recipe mem unknown found).2 id
    have known (other : NodeId) (answer : Value)
        (derived : context.derive? level other = some answer) : context.Derives other answer :=
      ⟨level, derived⟩
    refine Inquiry.outcome_of_result? known ?_ result
    intro source answer asks derived
    have awaits := await.ask unknown found asks
    have fresh := awaits.not_mem (known source answer derived)
    have nodup := List.nodup_cons.2 ⟨new, nodup⟩
    have subset := List.cons_subset.2 ⟨mem, subset⟩
    obtain ⟨rest, rfl, enough⟩ :=
      length_pos_of_not_mem nodup subset (asks.mem inside) fresh further
    exact ih (asks.mem inside) nodup subset awaits fresh rest enough derived

end

end Context

end DeclLang
