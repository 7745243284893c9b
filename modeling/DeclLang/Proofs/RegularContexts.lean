import DeclLang.Proofs.AdmittedValues
import DeclLang.Proofs.Meanings
import DeclLang.Proofs.FaithfulRecipes

/-!
# Contexts in which everything has its meaning

**Input.**  A compiled program whose functions are only called, and the function values made so far.

**Invariant.**  `Context.Regular`: the recipes are those of the program, nodes that belong to no
function only have the values that they mean, and declarations of functions and references to them
have function values of the declaration.  What is left over from activations does not matter.

**Tandem.**  `Compilation.mirrors`: a machine of the program, which is regular, and a machine in
which some nodes are evaluated with answers from outside.  These nodes have the same values in both.

**Results.**  Whatever evaluation does to one context leaves it regular, and both contexts alike.
-/

namespace DeclLang

open Inference (reached)

/-- A function value of a declaration. -/
def Value.Denotes (made : Array Closure) (function : Node) (value : Value) : Prop :=
  ∃ name serial closure, value.content = .closure name function.id serial ∧
    made[serial]? = some closure ∧ closure.declaration = function

/-- What is known has its meaning, except in functions. -/
structure Context.Regular (compilation : Compilation) (made : Array Closure)
    (context : Context) : Prop where
  thunks : context.thunks = compilation.context.thunks
  kept : ∀ id, compilation.context.thunk? id = none → ¬compilation.Binds id →
    context.value? id = compilation.context.value? id
  data : ∀ id value, compilation.function? id = none → context.value? id = some value →
    value.inert = true
  outer : ∀ id value, compilation.isOuter id = true → compilation.function? id = none →
    context.value? id = some value → compilation.meaningOf (.node id) = .ok value
  functions : ∀ id function value, compilation.function? id = some function →
    context.value? id = some value → value.Denotes made function

/-- A function value is made of a declaration without defaults, in a regular context. -/
structure Closure.Regular (compilation : Compilation) (made : Array Closure)
    (closure : Closure) : Prop where
  parameters : closure.parameters = (compilation.closureOf closure.declaration).parameters
  place : ∃ function?, (function?, closure.declaration) ∈ reached none compilation.root
  base : closure.base.Regular compilation made

/-- All contexts at hand are regular. -/
structure Machine.Regular (compilation : Compilation) (machine : Machine) : Prop where
  context : machine.context.Regular compilation machine.session.closures
  closures : ∀ closure ∈ machine.session.closures,
    closure.Regular compilation machine.session.closures

/-- A node of a function that holds data, and that evaluation or assignments may give a value. -/
structure Compilation.Free (compilation : Compilation) (id : NodeId) : Prop where
  inner : compilation.isOuter id = false
  data : compilation.function? id = none
  recipe : compilation.Binds id ∨ (compilation.context.thunk? id).isSome = true

theorem Value.Denotes.grow {made later : Array Closure} (grown : Grown made later)
    {function : Node} {value : Value} (denotes : value.Denotes made function) :
    value.Denotes later function :=
  have ⟨name, serial, closure, content, found, same⟩ := denotes
  ⟨name, serial, closure, content, grown serial closure found, same⟩

namespace Context.Regular

variable {compilation : Compilation} {made later : Array Closure} {context : Context}

theorem start (firstOrder : compilation.FirstOrder) :
    compilation.context.Regular compilation made where
  thunks := rfl
  kept _ _ _ := rfl
  data id value _ known := (firstOrder.values id value known).2
  outer id value _ _ known := by
    have outcome : compilation.outcomeOf compilation.meaningOf id = .ok value := by
      unfold Compilation.outcomeOf
      rw [known]
    have means := firstOrder.outcomeOf_means id
    rw [outcome] at means
    rcases means with ⟨error, failed, -⟩ | same
    · cases failed
    · exact same.symm
  functions id function value found known := by
    obtain ⟨thunk, recipe⟩ := Compilation.thunk?_of_function? found
    rw [(firstOrder.values id value known).1] at recipe
    cases recipe

variable (regular : context.Regular compilation made)

include regular

theorem thunk? (id : NodeId) : context.thunk? id = compilation.context.thunk? id := by
  unfold Context.thunk?
  rw [regular.thunks]

theorem grow (grown : Grown made later) : context.Regular compilation later where
  thunks := regular.thunks
  kept := regular.kept
  data := regular.data
  outer := regular.outer
  functions id function value found known :=
    (regular.functions id function value found known).grow grown

/-- What is being evaluated and what was assigned does not matter. -/
theorem congr {other : Context} (values : other.values = context.values)
    (thunks : other.thunks = context.thunks) : other.Regular compilation made where
  thunks := thunks.trans regular.thunks
  kept id recipe free := by
    rw [Context.value?, values]
    exact regular.kept id recipe free
  data id value data known := by
    rw [Context.value?, values] at known
    exact regular.data id value data known
  outer id value outer data known := by
    rw [Context.value?, values] at known
    exact regular.outer id value outer data known
  functions id function value found known := by
    rw [Context.value?, values] at known
    exact regular.functions id function value found known

/-- Nodes may get values that they mean. -/
theorem addValue {id : NodeId} {value : Value}
    (recipe : compilation.Binds id ∨ (compilation.context.thunk? id).isSome = true)
    (data : compilation.function? id = none → value.inert = true)
    (outer : compilation.isOuter id = true → compilation.function? id = none →
      compilation.meaningOf (.node id) = .ok value)
    (functions : ∀ function, compilation.function? id = some function →
      value.Denotes made function) : (context.addValue id value).Regular compilation made where
  thunks := regular.thunks
  kept other unregistered free := by
    rw [value?_addValue, if_neg]
    · exact regular.kept other unregistered free
    · rintro rfl
      rcases recipe with binds | recipe
      · exact free binds
      · rw [unregistered] at recipe
        cases recipe
  data other kept isData known := by
    rw [value?_addValue] at known
    split at known
    · rename_i same
      subst same
      cases known
      exact data isData
    · exact regular.data other kept isData known
  outer other kept isOuter isData known := by
    rw [value?_addValue] at known
    split at known
    · rename_i same
      subst same
      cases known
      exact outer isOuter isData
    · exact regular.outer other kept isOuter isData known
  functions other function kept found known := by
    rw [value?_addValue] at known
    split at known
    · rename_i same
      subst same
      cases known
      exact functions function found
    · exact regular.functions other function kept found known

theorem addValue_free {id : NodeId} (free : compilation.Free id) {value : Value}
    (inert : value.inert = true) : (context.addValue id value).Regular compilation made :=
  regular.addValue free.recipe (fun _ => inert)
    (fun outer => by rw [free.inner] at outer; cases outer)
    fun function found => by rw [free.data] at found; cases found

theorem rebind {id : NodeId} (free : compilation.Free id) {value : Value}
    (inert : value.inert = true) : (context.rebind id value).Regular compilation made :=
  (regular.addValue_free free inert).congr rfl rfl

/-- What is forgotten has a recipe. -/
theorem turn (ids : List NodeId) : (context.copy.forget ids).Regular compilation made where
  thunks := regular.thunks
  kept id recipe free := by
    rw [value?_forget, if_neg]
    · exact regular.kept id recipe free
    · rintro ⟨-, found⟩
      rw [show context.copy.thunk? id = compilation.context.thunk? id from regular.thunk? id,
        recipe] at found
      cases found
  data id value data known := by
    rw [value?_forget] at known
    split at known
    · cases known
    · exact regular.data id value data known
  outer id value outer data known := by
    rw [value?_forget] at known
    split at known
    · cases known
    · exact regular.outer id value outer data known
  functions id function value found known := by
    rw [value?_forget] at known
    split at known
    · cases known
    · exact regular.functions id function value found known

theorem addValues {bindings : List (NodeId × Value)}
    (free : ∀ binding ∈ bindings, compilation.Free binding.1 ∧ binding.2.inert = true) :
    (context.addValues bindings).Regular compilation made := by
  unfold Context.addValues
  induction bindings generalizing context with
  | nil => exact regular
  | cons binding bindings ih =>
    obtain ⟨own, inert⟩ := free binding List.mem_cons_self
    exact ih (regular.addValue_free own inert)
      fun other mem => free other (List.mem_cons_of_mem _ mem)

theorem adopt {turn : Context} (other : turn.Regular compilation made)
    (free : ∀ id ∈ turn.rebound, compilation.Free id) :
    (context.adopt turn).Regular compilation made where
  thunks := (adopt_rest turn).1.trans regular.thunks
  kept id recipe unbound := by
    rw [value?_adopt, if_neg]
    · exact regular.kept id recipe unbound
    · rintro ⟨mem, -⟩
      rcases (free id mem).recipe with binds | registered
      · exact unbound binds
      · rw [recipe] at registered
        cases registered
  data id value data known := by
    rw [value?_adopt] at known
    split at known
    · exact other.data id value data known
    · exact regular.data id value data known
  outer id value outer data known := by
    rw [value?_adopt] at known
    split at known
    · exact other.outer id value outer data known
    · exact regular.outer id value outer data known
  functions id function value found known := by
    rw [value?_adopt] at known
    split at known
    · exact other.functions id function value found known
    · exact regular.functions id function value found known

end Context.Regular

theorem Closure.Regular.map_id_parameters {compilation : Compilation} {made : Array Closure}
    {closure : Closure} (regular : closure.Regular compilation made) :
    (closure.parameters.map fun parameter => parameter.1.id) =
      Call.parameterIds closure.declaration := by
  rw [regular.parameters, Compilation.map_id_closureOf]

/-- A call of the function value takes what a call of the declaration takes. -/
theorem Closure.Regular.slots_eq {compilation : Compilation} {made : Array Closure}
    {closure : Closure} (regular : closure.Regular compilation made) :
    (compilation.closureOf closure.declaration).slots = closure.slots := by
  unfold Closure.slots
  rw [regular.parameters]

theorem Closure.Regular.grow {compilation : Compilation} {made later : Array Closure}
    (grown : Grown made later) {closure : Closure} (regular : closure.Regular compilation made) :
    closure.Regular compilation later where
  parameters := regular.parameters
  place := regular.place
  base := regular.base.grow grown

namespace Compilation

variable (compilation : Compilation)

/-- A machine of the program, and one in which the nodes inside have the same values. -/
structure Mirrors (inside busy : NodeId → Prop) (left right : Machine) : Prop where
  regular : left.Regular compilation
  progress : ∀ id ∈ left.context.inProgress, busy id
  thunks : right.context.thunks = compilation.context.thunks
  values : ∀ id, inside id → left.context.value? id = right.context.value? id
  rebound : ∀ id, id ∈ left.context.rebound ↔ id ∈ right.context.rebound
  assigned : ∀ id ∈ left.context.rebound, inside id ∧ compilation.Free id

/-- A machine of the program next to one that is answered from outside. -/
def mirrors (inside busy : NodeId → Prop) : Tandem where
  joins := compilation.Mirrors inside busy
  kept machine := machine.Regular compilation ∧ ∀ id ∈ machine.context.inProgress, busy id
  continues before after := Grown before.closures after.closures
  lost := EvalError.IsDepth
  kept_of_joins _ _ mirrors := ⟨mirrors.regular, mirrors.progress⟩
  refl _ := .refl _
  trans _ _ _ := Grown.trans

/-- Evaluation of one machine and the answers to the other one come to the same data. -/
abbrev Agree (inside busy : NodeId → Prop) (left right : Machine) (step second : Eval Value) :
    Prop :=
  Eval.Meets (compilation.mirrors inside busy) left right step second
    fun _ _ value other => value = other ∧ value.inert = true

/-- Evaluation comes to a function value of the declaration. -/
abbrev Finds (inside busy : NodeId → Prop) (function : Node) (left right : Machine)
    (step : Eval Value) : Prop :=
  Eval.Meets (compilation.mirrors inside busy) left right step (pure ())
    fun after _ value _ => value.Denotes after.session.closures function

end Compilation

namespace Compilation.Mirrors

variable {compilation : Compilation} {inside busy : NodeId → Prop} {left right : Machine}
  (mirrors : compilation.Mirrors inside busy left right)

include mirrors

/-- The machines are as they were when a session has gone on. -/
theorem continue_ {session other : Session}
    (grown : Grown left.session.closures session.closures)
    (closures : ∀ closure ∈ session.closures, closure.Regular compilation session.closures) :
    compilation.Mirrors inside busy ⟨left.context, session⟩ ⟨right.context, other⟩ where
  regular := ⟨mirrors.regular.context.grow grown, closures⟩
  progress := mirrors.progress
  thunks := mirrors.thunks
  values := mirrors.values
  rebound := mirrors.rebound
  assigned := mirrors.assigned

/-- A node inside gets the same value in both machines. -/
theorem addValue {id : NodeId} (free : compilation.Free id) {value : Value}
    (inert : value.inert = true) :
    compilation.Mirrors inside busy ⟨left.context.addValue id value, left.session⟩
      ⟨right.context.addValue id value, right.session⟩ where
  regular := ⟨mirrors.regular.context.addValue_free free inert, mirrors.regular.closures⟩
  progress := mirrors.progress
  thunks := mirrors.thunks
  values other mem := by
    rw [Context.value?_addValue, Context.value?_addValue, mirrors.values other mem]
  rebound := mirrors.rebound
  assigned := mirrors.assigned

/-- A node that is not inside gets a value. -/
theorem addValue_left {id : NodeId} {value : Value} (other : ¬inside id)
    (regular : (left.context.addValue id value).Regular compilation left.session.closures) :
    compilation.Mirrors inside busy ⟨left.context.addValue id value, left.session⟩ right where
  regular := ⟨regular, mirrors.regular.closures⟩
  progress := mirrors.progress
  thunks := mirrors.thunks
  values node mem := by
    rw [Context.value?_addValue, if_neg]
    · exact mirrors.values node mem
    · rintro rfl
      exact other mem
  rebound := mirrors.rebound
  assigned := mirrors.assigned

theorem rebind {id : NodeId} (mem : inside id) (free : compilation.Free id) {value : Value}
    (inert : value.inert = true) :
    compilation.Mirrors inside busy ⟨left.context.rebind id value, left.session⟩
      ⟨right.context.rebind id value, right.session⟩ where
  regular := ⟨mirrors.regular.context.rebind free inert, mirrors.regular.closures⟩
  progress := mirrors.progress
  thunks := mirrors.thunks
  values := (mirrors.addValue free inert).values
  rebound other := by
    rw [Context.mem_rebound_rebind, Context.mem_rebound_rebind, mirrors.rebound other]
  assigned other now := by
    rcases (Context.mem_rebound_rebind id value other).1 now with rfl | before
    · exact ⟨mem, free⟩
    · exact mirrors.assigned other before

/-- Other nodes may be in progress. -/
theorem progressed {later : NodeId → Prop} {inProgress : Std.TreeSet NodeId}
    (progress : ∀ id ∈ inProgress, later id) (session : Session)
    (same : session.closures = left.session.closures) :
    compilation.Mirrors inside later ⟨{ left.context with inProgress }, session⟩ right where
  regular := by
    refine ⟨?_, fun closure mem => ?_⟩
    · rw [same]
      exact mirrors.regular.context.congr rfl rfl
    · rw [same] at mem ⊢
      exact mirrors.regular.closures closure mem
  progress := progress
  thunks := mirrors.thunks
  values := mirrors.values
  rebound := mirrors.rebound
  assigned := mirrors.assigned

end Compilation.Mirrors

/-- Both machines of a mirror go through the turns of a loop alike. -/
theorem Compilation.turns_mirrors (compilation : Compilation) (inside busy : NodeId → Prop) :
    (compilation.mirrors inside busy).Turns where
  opens left right (joined : compilation.Mirrors inside busy left right) subtree :=
    { regular := ⟨joined.regular.context.turn subtree, joined.regular.closures⟩
      progress := fun _ mem => absurd mem Std.TreeSet.not_mem_emptyc
      thunks := joined.thunks
      values := fun id mem => by
        rw [Context.value?_forget, Context.value?_forget,
          show left.context.copy.thunk? id = right.context.copy.thunk? id by
            rw [Context.thunk?, Context.thunk?]
            exact congrArg (fun thunks : Std.TreeMap NodeId Thunk => thunks[id]?)
              (joined.regular.context.thunks.trans joined.thunks.symm),
          show left.context.copy.value? id = right.context.copy.value? id from
            joined.values id mem]
      rebound := fun _ => Iff.rfl
      assigned := fun _ mem => absurd mem Std.TreeSet.not_mem_emptyc }
  returns left right after later (joined : compilation.Mirrors inside busy left right) grown
      (again : compilation.Mirrors inside busy after later) :=
    joined.continue_ grown again.regular.closures
  keeps left right after (joined : compilation.Mirrors inside busy left right) grown kept :=
    ⟨⟨joined.regular.context.grow grown, kept.1.closures⟩, joined.progress⟩
  adopts left right turn other (joined : compilation.Mirrors inside busy left right)
      (again : compilation.Mirrors inside busy ⟨turn, left.session⟩ ⟨other, right.session⟩) := by
    have alike (id : NodeId) (mem : inside id) : turn.value? id = other.value? id :=
      again.values id mem
    have rebound (id : NodeId) : id ∈ turn.rebound ↔ id ∈ other.rebound := again.rebound id
    have assigned (id : NodeId) (mem : id ∈ turn.rebound) : inside id ∧ compilation.Free id :=
      again.assigned id mem
    exact
      { regular := ⟨joined.regular.context.adopt again.regular.context
          fun id mem => (assigned id mem).2, joined.regular.closures⟩
        progress := fun id mem => joined.progress id (by
          rwa [(Context.adopt_rest turn).2] at mem)
        thunks := (Context.adopt_rest other).1.trans joined.thunks
        values := fun id mem => by
          rw [Context.value?_adopt, Context.value?_adopt, alike id mem, joined.values id mem]
          simp only [rebound id]
        rebound := fun id => by
          rw [Context.mem_rebound_adopt, Context.mem_rebound_adopt, joined.rebound id]
          constructor
          · rintro (before | ⟨now, known⟩)
            · exact .inl before
            · rw [alike id (assigned id now).1] at known
              exact .inr ⟨(rebound id).1 now, known⟩
          · rintro (before | ⟨now, known⟩)
            · exact .inl before
            · have now := (rebound id).2 now
              rw [← alike id (assigned id now).1] at known
              exact .inr ⟨now, known⟩
        assigned := fun id mem => by
          rcases (Context.mem_rebound_adopt turn id).1 mem with before | ⟨now, -⟩
          · exact joined.assigned id before
          · exact assigned id now }

end DeclLang
