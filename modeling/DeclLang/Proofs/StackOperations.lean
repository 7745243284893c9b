import Mathlib.Data.List.Infix
import DeclLang.Proofs.ScopeStacks

/-!
# Operations on a stack of scopes

A stack of scopes is only ever changed by opening a frame, with or without bindings, by closing the
innermost frame, and by binding a name in it.

**Input.**  A list of operations.  An operation that has no frame to work on is refused, and leaves
the stack as it is.

**Invariant.**  Operations that leave one of their own frames open at every moment work on these
frames alone; the frames below stay as they are (`ScopeStack.foldlM_perform_above`).

**Results.**  `ScopeStack.operations_lawful`: whatever was done to a stack, all frames laid over
each other show exactly what can be looked up; and opening a frame, working inside of it in balance
and closing it gives back the stack that was there before.
-/

namespace DeclLang

namespace ScopeStack

variable {α : Type}

/-- What can be done to a stack. -/
inductive Operation (α : Type) where
  | push
  | pushFrame (bindings : List (String × α))
  | pop
  | bind (name : String) (value : α)

namespace Operation

/-- The operation opens a frame. -/
def opens : Operation α → Bool
  | push | pushFrame _ => true
  | pop | bind .. => false

/-- The number of frames that the operation adds to those that are open. -/
def balance : Operation α → Int
  | push | pushFrame _ => 1
  | pop => -1
  | bind .. => 0

/-- The number of frames that are open after the operations and were not open before them. -/
def netBalance : List (Operation α) → Int
  | [] => 0
  | operation :: operations => operation.balance + netBalance operations

/-- Operations that close what they open, and at no moment a frame that was open before them. -/
structure Balanced (operations : List (Operation α)) : Prop where
  within : ∀ earlier, earlier <+: operations → 0 ≤ netBalance earlier
  settled : netBalance operations = 0

end Operation

open Operation

/-- Performs an operation, unless it is refused. -/
def perform (stack : ScopeStack α) : Operation α → Except ScopeError (ScopeStack α)
  | .push => .ok stack.push
  | .pushFrame bindings => .ok (stack.pushFrame bindings)
  | .pop => stack.pop.map Prod.snd
  | .bind name value => (stack.bind name value).map Prod.snd

/-- The stack after an operation was performed or refused. -/
def after (stack : ScopeStack α) (operation : Operation α) : ScopeStack α :=
  match stack.perform operation with
  | .ok later => later
  | .error _ => stack

/-- Operations none of which is refused lead where they are performed. -/
theorem foldl_after_of_ok {operations : List (Operation α)} {stack later : ScopeStack α}
    (performed : operations.foldlM perform stack = .ok later) :
    operations.foldl after stack = later := by
  induction operations generalizing stack with
  | nil =>
    cases performed
    rfl
  | cons operation operations ih =>
    rw [List.foldlM_cons] at performed
    cases next : stack.perform operation with
    | error error =>
      rw [next] at performed
      cases performed
    | ok middle =>
      rw [next] at performed
      have here : stack.after operation = middle := by rw [after, next]
      rw [List.foldl_cons, here]
      exact ih performed

section Above

variable {outer : List (Frame α)}

/-- An operation that leaves a frame of its own open works on its own frames alone. -/
theorem perform_above {operation : Operation α} {own : List (Frame α)} (opened : 1 ≤ own.length)
    (within : 1 ≤ own.length + operation.balance) :
    ∃ left : List (Frame α), perform ⟨own ++ outer⟩ operation = .ok ⟨left ++ outer⟩ ∧
      left.length = own.length + operation.balance := by
  obtain ⟨frame, rest, rfl⟩ := List.exists_cons_of_length_pos opened
  cases operation with
  | push => exact ⟨∅ :: frame :: rest, rfl, rfl⟩
  | pushFrame bindings => exact ⟨_ :: frame :: rest, rfl, rfl⟩
  | pop =>
    refine ⟨rest, rfl, ?_⟩
    rw [List.length_cons, balance]
    omega
  | bind name value => exact ⟨frame.insert name value :: rest, rfl, (Int.add_zero _).symm⟩

/-- Operations that leave a frame of their own open at every moment work on their own frames alone:
none of them is refused, and the frames below stay as they are. -/
theorem foldlM_perform_above {operations : List (Operation α)} {own : List (Frame α)}
    (within : ∀ earlier, earlier <+: operations → 1 ≤ own.length + netBalance earlier) :
    ∃ left : List (Frame α), operations.foldlM perform ⟨own ++ outer⟩ = .ok ⟨left ++ outer⟩ ∧
      left.length = own.length + netBalance operations := by
  induction operations generalizing own with
  | nil => exact ⟨own, rfl, (Int.add_zero _).symm⟩
  | cons operation operations ih =>
    have opened := within [] List.nil_prefix
    have first := within [operation] ⟨operations, rfl⟩
    simp only [netBalance, Int.add_zero] at opened first
    obtain ⟨middle, performed, length⟩ := @perform_above _ outer _ _ (by omega) first
    have later (earlier : List (Operation α)) (front : earlier <+: operations) :
        1 ≤ middle.length + netBalance earlier := by
      have whole := within (operation :: earlier) (List.cons_prefix_cons.2 ⟨rfl, front⟩)
      rw [netBalance] at whole
      omega
    obtain ⟨left, run, total⟩ := ih later
    refine ⟨left, ?_, ?_⟩
    · rw [List.foldlM_cons, performed]
      exact run
    · rw [netBalance]
      omega

end Above

/-- Opening a frame, working inside of it in balance and closing it again gives back the stack. -/
theorem foldlM_perform_balanced (stack : ScopeStack α) {opening : Operation α}
    (opens : opening.opens = true) {inner : List (Operation α)} (balanced : Balanced inner) :
    (opening :: (inner ++ [.pop])).foldlM perform stack = .ok stack := by
  obtain ⟨frame, opened⟩ : ∃ frame, stack.perform opening = .ok ⟨[frame] ++ stack.frames⟩ := by
    cases opening with
    | push => exact ⟨∅, rfl⟩
    | pushFrame bindings => exact ⟨_, rfl⟩
    | pop | bind => cases opens
  have within (earlier : List (Operation α)) (front : earlier <+: inner) :
      1 ≤ [frame].length + netBalance earlier := by
    have := balanced.within earlier front
    simp only [List.length_singleton]
    omega
  obtain ⟨left, performed, length⟩ := @foldlM_perform_above _ stack.frames _ _ within
  -- Only the frame that was opened is left of its own frames, and is closed.
  have alone : left.length = 1 := by
    have := balanced.settled
    simp only [List.length_singleton] at length
    omega
  obtain ⟨last, rfl⟩ := List.length_eq_one_iff.1 alone
  rw [List.foldlM_cons, opened]
  change (inner ++ [Operation.pop]).foldlM perform _ = _
  rw [List.foldlM_append, performed]
  rfl

/-- Whatever operations were performed or refused, laying all frames over each other shows a name
exactly if it can be looked up, and with the same value.  From any stack, operations that open a
frame, stay above it in balance and close it are all performed, and lead back to that stack. -/
theorem operations_lawful :
    (∀ (operations : List (Operation α)) (name : String),
      let stack := operations.foldl after {}
      (name ∈ stack.flatten ↔ ∃ value, stack.lookup name = some value) ∧
        stack.flatten[name]? = stack.lookup name) ∧
    ∀ (stack : ScopeStack α) (opening : Operation α) (inner : List (Operation α)),
      opening.opens = true → Balanced inner →
        (opening :: (inner ++ [.pop])).foldlM perform stack = .ok stack ∧
          (opening :: (inner ++ [.pop])).foldl after stack = stack := by
  refine ⟨fun operations name => ?_, fun stack opening inner opens balanced => ?_⟩
  · intro stack
    refine ⟨?_, getElem?_flatten stack name⟩
    rw [Std.TreeMap.mem_iff_isSome_getElem?, getElem?_flatten, Option.isSome_iff_exists]
  · have restored := foldlM_perform_balanced stack opens balanced
    exact ⟨restored, foldl_after_of_ok restored⟩

/-- A stack on which two names are bound. -/
def twoNames : ScopeStack Nat :=
  ({} : ScopeStack Nat).pushFrame [("a", 1), ("b", 2)]

/-- The first name is bound anew around a frame that hides the second one. -/
def shadowing : List (Operation Nat) :=
  [.bind "a" 10, .pushFrame [("b", 3), ("b", 4)], .pop, .bind "a" 11]

/-- Inside of its frame the new binding is found, and behind it the stack is as before. -/
theorem operations_lawful_shadowing :
    Balanced shadowing ∧
      ((Operation.push :: shadowing).foldl after twoNames).lookup "a" = some 11 ∧
      (Operation.push :: (shadowing ++ [.pop])).foldlM perform twoNames = .ok twoNames ∧
      twoNames.lookup "a" = some 1 := by
  have balanced : Balanced shadowing := by
    refine ⟨fun earlier front => ?_, by decide⟩
    have prefixes : ∀ earlier ∈ shadowing.inits, 0 ≤ netBalance earlier := by decide
    exact prefixes earlier ((List.mem_inits _ _).2 front)
  exact ⟨balanced, by decide +kernel,
    (operations_lawful.2 twoNames .push shadowing rfl balanced).1, by decide +kernel⟩

end ScopeStack

end DeclLang
