import DeclLang.Proofs.ConveyedArguments
import DeclLang.Proofs.RegularContexts
import DeclLang.Proofs.SelfContained

/-!
# Frames of calls

**Input.**  A compiled program whose functions are only called, and function values made in regular
contexts.

**Results.**
* `Compilation.mirrors_frame`: wherever a function value was made, the frame of a call mirrors the
  frame of a call before anything was evaluated.
-/

namespace DeclLang

open Inference (reached)

namespace Call

/-- Without defaults, no parameter gets a value when a function is made. -/
theorem distribute_of_none {α : Type} {slots : List (α × Bool)}
    (none_ : (slots.filter Prod.snd).length = 0) (values : List Value) :
    distribute slots values = slots.map fun slot => (slot.1, none) := by
  induction slots with
  | nil => rfl
  | cons slot slots ih =>
    obtain ⟨a, given⟩ := slot
    cases given with
    | false => exact congrArg ((a, none) :: ·) (ih none_)
    | true => cases none_

/-- Every slot receives one value. -/
theorem length_of_receive {slots : List (String × Option Value)} {arguments : Arguments}
    {values : List Value} (received : receive slots arguments = .ok values) :
    values.length = slots.length := by
  obtain ⟨filled, aligned, offered⟩ := receive_ok received
  have length := align_length aligned
  rw [← offered.length_eq, List.length_zip, length, slotsOf, List.length_map, Nat.min_self]

end Call

/-- Bindings give nodes the same values in all contexts. -/
theorem Context.value?_addValues_congr {first second : Context} (bindings : List (NodeId × Value))
    {id : NodeId} (h : id ∈ bindings.map Prod.fst ∨ first.value? id = second.value? id) :
    (first.addValues bindings).value? id = (second.addValues bindings).value? id := by
  unfold Context.addValues
  induction bindings generalizing first second with
  | nil => exact h.resolve_left List.not_mem_nil
  | cons binding bindings ih =>
    refine ih ?_
    by_cases later : id ∈ bindings.map Prod.fst
    · exact .inl later
    right
    rw [Context.value?_addValue, Context.value?_addValue]
    split
    · rfl
    · rename_i other
      refine h.resolve_left fun mem => ?_
      rw [List.map_cons, List.mem_cons] at mem
      exact mem.elim other later

/-- What belongs to a function and is no parameter has been forgotten when the function is called,
or it is as it was before anything was evaluated. -/
theorem Context.Regular.value?_turn {compilation : Compilation} {made : Array Closure}
    {context : Context} (regular : context.Regular compilation made)
    (consistent : compilation.Consistent) (firstOrder : compilation.FirstOrder) {function : Node}
    {id : NodeId} (owned : compilation.root.Owns function id)
    (other : id ∉ Call.parameterIds function) :
    (context.copy.forget (compilation.evaluator.plan.subtree function.id)).value? id =
      compilation.context.value? id := by
  rw [Context.value?_forget,
    show context.copy.thunk? id = compilation.context.thunk? id from regular.thunk? id]
  cases recipe : compilation.context.thunk? id with
  | none =>
    rw [if_neg fun both => Bool.noConfusion both.2]
    exact regular.kept id recipe fun binds =>
      other (Compilation.mem_parameterIds_of_binds consistent owned binds)
  | some thunk =>
    rw [if_pos ⟨owned.mem_subtree consistent, rfl⟩]
    cases known : compilation.context.value? id with
    | none => rfl
    | some value =>
      rw [(firstOrder.values id value known).1] at recipe
      cases recipe

namespace Compilation

variable {compilation : Compilation} (consistent : compilation.Consistent)
  (firstOrder : compilation.FirstOrder)

include consistent firstOrder

/-- The frame of a call mirrors that of a call before anything was evaluated. -/
theorem mirrors_frame {closure : Closure} {session : Session}
    (regular : closure.Regular compilation session.closures)
    (closures : ∀ closure ∈ session.closures, closure.Regular compilation session.closures)
    {values : List Value} (length : values.length = closure.parameters.length)
    (inert : ∀ value ∈ values, value.inert = true) :
    compilation.Mirrors (compilation.OwnData closure.declaration) (fun _ => False)
      ⟨closure.frame compilation.evaluator.plan values, session⟩
      ⟨(compilation.closureOf closure.declaration).frame compilation.evaluator.plan values,
        {}⟩ := by
  obtain ⟨function?, place⟩ := regular.place
  have start : compilation.context.Regular compilation session.closures := .start firstOrder
  have enough : (Call.parameterIds closure.declaration).length ≤ values.length := by
    rw [length, ← regular.map_id_parameters, List.length_map]
  have rest (base : Context) := Context.addValues_rest
    (base.copy.forget (compilation.evaluator.plan.subtree closure.declaration.id))
    ((Call.parameterIds closure.declaration).zip values)
  unfold Closure.frame
  rw [regular.map_id_parameters, map_id_closureOf]
  exact
    { regular := by
        refine ⟨(regular.base.turn _).addValues fun binding mem => ?_, closures⟩
        have bound : compilation.Binds binding.1 := ⟨_, _, place, (List.of_mem_zip mem).1⟩
        exact ⟨⟨isOuter_of_binds bound, firstOrder.parameters _ bound, .inl bound⟩,
          inert _ (List.of_mem_zip mem).2⟩
      progress := fun id mem => by
        rw [(rest closure.base).2.1] at mem
        exact absurd mem Std.TreeSet.not_mem_emptyc
      thunks := (rest compilation.context).1
      values := fun id mem => by
        refine Context.value?_addValues_congr _ ?_
        rw [List.map_fst_zip enough]
        by_cases bound : id ∈ Call.parameterIds closure.declaration
        · exact .inl bound
        · exact .inr ((regular.base.value?_turn consistent firstOrder mem.1 bound).trans
            (start.value?_turn consistent firstOrder mem.1 bound).symm)
      rebound := fun id => by
        rw [(rest closure.base).2.2]
        exact Iff.of_eq (congrArg (id ∈ ·) (rest compilation.context).2.2.symm)
      assigned := fun id mem => by
        rw [(rest closure.base).2.2] at mem
        exact absurd mem Std.TreeSet.not_mem_emptyc }

end Compilation

end DeclLang
