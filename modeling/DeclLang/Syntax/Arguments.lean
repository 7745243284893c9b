import DeclLang.Syntax.Node

/-!
# Aligning arguments to parameters

A call gives arguments, each with or without a label; a declaration has named slots.  A labeled
argument goes to the first slot of that name.  Arguments without a label fill the slots that are
still empty from left to right, behind a cursor that only moves forward.
-/

namespace DeclLang

/-- A place for an argument: its name, and whether it can stay empty. -/
structure Slot where
  name : String
  hasDefault : Bool
  deriving DecidableEq, Repr

namespace Node

/-- The slot of a function's parameter. -/
def parameterSlot? (node : Node) : Option Slot :=
  match node.kind with
  | .parameter name _ default? => some { name, hasDefault := default?.isSome }
  | _ => none

/-- The slot of a record's field. -/
def fieldSlot? (node : Node) : Option Slot :=
  match node.kind with
  | .variableDecl name _ initializer? => some { name, hasDefault := initializer?.isSome }
  | _ => none

/-- The slots that a call to the declaration can name: the parameters of a function, the fields of
a record.  Other declarations take arguments by position only. -/
def slots? (node : Node) : Option (List Slot) :=
  match node.kind with
  | .functionDecl _ _ parameters _ _ => some (parameters.filterMap parameterSlot?)
  | .recordDecl _ _ declarations => some (declarations.filterMap fieldSlot?)
  | _ => none

end Node

/-- Why arguments do not fit a list of slots. -/
inductive AlignmentError where
  | unknownLabel (label : String)
  | duplicateArgument (name : String)
  | tooManyArguments (expected found : Nat)
  deriving DecidableEq, Repr

/-- The text of the error. -/
def AlignmentError.message : AlignmentError → String
  | unknownLabel label => s!"no parameter named `{label}`"
  | duplicateArgument name => s!"parameter `{name}` was given more than once"
  | tooManyArguments expected found =>
    s!"expected at most {expected} arguments, got {found}"

namespace Alignment

variable {α : Type}

/-- The slots filled so far, and the cursor behind which no slot is empty. -/
structure State (α : Type) where
  filled : List (Option α)
  cursor : Nat := 0

/-- Moves forward over filled slots, from the given position to the first empty one or the end. -/
def advance (filled : List (Option α)) (cursor : Nat) : Nat :=
  cursor + ((filled.drop cursor).takeWhile Option.isSome).length

/-- The position that an argument goes to, and the cursor after finding it. -/
def position (slots : List Slot) (found : Nat) (label? : Option String) (state : State α) :
    Except AlignmentError (Nat × Nat) :=
  match label? with
  | some label =>
    match slots.findIdx? (·.name == label) with
    | some position => .ok (position, state.cursor)
    | none => .error (.unknownLabel label)
  | none =>
    let cursor := advance state.filled state.cursor
    if cursor < slots.length then .ok (cursor, cursor)
    else .error (.tooManyArguments slots.length found)

/-- Puts one argument into its slot. -/
def place (slots : List Slot) (found : Nat) (state : State α) (argument : Option String × α) :
    Except AlignmentError (State α) := do
  let (position, cursor) ← position slots found argument.1 state
  if (state.filled[position]?.join).isSome then
    .error (.duplicateArgument ((slots[position]?.map Slot.name).getD ""))
  else
    .ok { filled := state.filled.set position (some argument.2), cursor }

end Alignment

/-- The argument of every slot, in the order of the slots. -/
def align {α : Type} (slots : List Slot) (arguments : List (Option String × α)) :
    Except AlignmentError (List (Option α)) := do
  let start : Alignment.State α := { filled := slots.map fun _ => none }
  let state ← arguments.foldlM (Alignment.place slots arguments.length) start
  return state.filled

end DeclLang
