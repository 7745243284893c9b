import Std.Data.TreeMap

/-!
# Stacks of scopes

A stack of frames, each binding names to values of type `α`.  A name is looked up from the
innermost frame outwards, so an inner binding hides an outer one until its frame is popped.
`flatten` is the view of the stack as one table of everything that is visible.
-/

namespace DeclLang

/-- One frame of bindings. -/
abbrev Frame (α : Type) := Std.TreeMap String α

/-- What goes wrong on an empty stack. -/
inductive ScopeError where
  | emptyStack
  | noScope
  deriving DecidableEq, Repr

/-- The text of the error. -/
def ScopeError.message : ScopeError → String
  | emptyStack => "cannot pop from empty scope stack"
  | noScope => "no scope to bind in"

/-- A stack of frames, the innermost first. -/
structure ScopeStack (α : Type) where
  frames : List (Frame α) := []

namespace ScopeStack

variable {α : Type}

/-- Opens a frame without bindings. -/
def push (stack : ScopeStack α) : ScopeStack α :=
  ⟨∅ :: stack.frames⟩

/-- Opens a frame with bindings, where a later binding of a name replaces an earlier one. -/
def pushFrame (stack : ScopeStack α) (bindings : List (String × α)) : ScopeStack α :=
  ⟨bindings.foldl (fun frame binding => frame.insert binding.1 binding.2) ∅ :: stack.frames⟩

/-- Closes the innermost frame and gives it back. -/
def pop (stack : ScopeStack α) : Except ScopeError (Frame α × ScopeStack α) :=
  match stack.frames with
  | [] => .error .emptyStack
  | frame :: outer => .ok (frame, ⟨outer⟩)

/-- The innermost binding of a name. -/
def lookup (stack : ScopeStack α) (name : String) : Option α :=
  stack.frames.findSome? fun frame => frame[name]?

/-- Binds a name in the innermost frame, and gives back the value that it replaces there. -/
def bind (stack : ScopeStack α) (name : String) (value : α) :
    Except ScopeError (Option α × ScopeStack α) :=
  match stack.frames with
  | [] => .error .noScope
  | frame :: outer => .ok (frame[name]?, ⟨frame.insert name value :: outer⟩)

/-- The number of open frames. -/
def depth (stack : ScopeStack α) : Nat :=
  stack.frames.length

/-- Every visible binding: frames are laid over each other from the outermost inwards. -/
def flatten (stack : ScopeStack α) : Frame α :=
  stack.frames.foldr (fun frame visible => visible.insertMany frame) ∅

end ScopeStack

end DeclLang
