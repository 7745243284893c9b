/-!
# Static types

Types are variables (to be solved for), generic parameters (rigid, replaced by fresh variables at
each reference), constants applied to parameters, and functions with arguments that may be labeled.

Every operation that changes a type changes its leaves only, so all of them are instances of one
map, `StaticType.mapLeaves`; what a type depends on is listed by `StaticType.freeVariables` and
`StaticType.generics`, in written order.
-/

namespace DeclLang

/-- The type of an expression or a declaration. -/
inductive StaticType where
  | variable (name : String)
  | generic (name : String)
  | constant (name : String) (parameters : List StaticType)
  | function (arguments : List (Option String × StaticType)) (result : StaticType)
  deriving Repr, Inhabited

namespace StaticType

theorem sizeOf_snd_lt_of_mem {argument : Option String × StaticType}
    {arguments : List (Option String × StaticType)} (h : argument ∈ arguments) :
    sizeOf argument.2 < sizeOf arguments := by
  have := List.sizeOf_lt_of_mem h
  obtain ⟨label?, type⟩ := argument
  simp at this ⊢
  omega

mutual

/-- Decides whether two types are the same, labels included. -/
protected def decEq : (s t : StaticType) → Decidable (s = t)
  | .variable m, .variable n => decidable_of_iff (m = n) (by simp)
  | .generic m, .generic n => decidable_of_iff (m = n) (by simp)
  | .constant m ps, .constant n qs =>
    have := decEqParameters ps qs
    decidable_of_iff (m = n ∧ ps = qs) (by simp)
  | .function as r, .function bs s =>
    have := decEqArguments as bs
    have := StaticType.decEq r s
    decidable_of_iff (as = bs ∧ r = s) (by simp)
  | .variable _, .generic _ | .variable _, .constant .. | .variable _, .function ..
  | .generic _, .variable _ | .generic _, .constant .. | .generic _, .function ..
  | .constant .., .variable _ | .constant .., .generic _ | .constant .., .function ..
  | .function .., .variable _ | .function .., .generic _ | .function .., .constant .. =>
    .isFalse nofun

/-- Decides whether two lists of types are the same. -/
def decEqParameters : (ps qs : List StaticType) → Decidable (ps = qs)
  | [], [] => .isTrue rfl
  | [], _ :: _ | _ :: _, [] => .isFalse nofun
  | p :: ps, q :: qs =>
    have := StaticType.decEq p q
    have := decEqParameters ps qs
    decidable_of_iff (p = q ∧ ps = qs) (by simp)

/-- Decides whether two lists of arguments are the same, labels included. -/
def decEqArguments : (as bs : List (Option String × StaticType)) → Decidable (as = bs)
  | [], [] => .isTrue rfl
  | [], _ :: _ | _ :: _, [] => .isFalse nofun
  | (k, a) :: as, (l, b) :: bs =>
    have := StaticType.decEq a b
    have := decEqArguments as bs
    decidable_of_iff ((k = l ∧ a = b) ∧ as = bs) (by simp)

end

instance : DecidableEq StaticType :=
  StaticType.decEq

/-- The sum of a list of numbers. -/
@[simp] def total : List Nat → Nat
  | [] => 0
  | n :: rest => n + total rest

@[simp] theorem total_append (left right : List Nat) :
    total (left ++ right) = total left + total right := by
  induction left with
  | nil => simp only [List.nil_append, total, Nat.zero_add]
  | cons n left ih => simp only [List.cons_append, total, ih, Nat.add_assoc]

/-- The number of constructors in the type. -/
def weight : StaticType → Nat
  | .variable _ | .generic _ => 1
  | .constant _ parameters => 1 + total (parameters.map weight)
  | .function arguments result =>
    1 + total (arguments.map fun argument => weight argument.2) + weight result
termination_by t => sizeOf t
decreasing_by
  all_goals simp only [function.sizeOf_spec, constant.sizeOf_spec]
  · have := List.sizeOf_lt_of_mem ‹_ ∈ parameters›; omega
  · have := sizeOf_snd_lt_of_mem ‹_ ∈ arguments›; omega
  · omega

/-- Replaces every variable and every generic parameter of the type. -/
def mapLeaves (onVariable onGeneric : String → StaticType) : StaticType → StaticType
  | .variable name => onVariable name
  | .generic name => onGeneric name
  | .constant name parameters =>
    .constant name (parameters.map (mapLeaves onVariable onGeneric))
  | .function arguments result =>
    .function
      (arguments.map fun argument => (argument.1, mapLeaves onVariable onGeneric argument.2))
      (mapLeaves onVariable onGeneric result)
termination_by t => sizeOf t
decreasing_by
  all_goals simp only [function.sizeOf_spec, constant.sizeOf_spec]
  · have := List.sizeOf_lt_of_mem ‹_ ∈ parameters›; omega
  · have := sizeOf_snd_lt_of_mem ‹_ ∈ arguments›; omega
  · omega

/-- The variables of the type in written order, each as often as it occurs. -/
def freeVariables : StaticType → List String
  | .variable name => [name]
  | .generic _ => []
  | .constant _ parameters => parameters.flatMap freeVariables
  | .function arguments result =>
    (arguments.flatMap fun argument => freeVariables argument.2) ++ freeVariables result
termination_by t => sizeOf t
decreasing_by
  all_goals simp only [function.sizeOf_spec, constant.sizeOf_spec]
  · have := List.sizeOf_lt_of_mem ‹_ ∈ parameters›; omega
  · have := sizeOf_snd_lt_of_mem ‹_ ∈ arguments›; omega
  · omega

/-- The generic parameters of the type in written order, each as often as it occurs. -/
def generics : StaticType → List String
  | .variable _ => []
  | .generic name => [name]
  | .constant _ parameters => parameters.flatMap generics
  | .function arguments result =>
    (arguments.flatMap fun argument => generics argument.2) ++ generics result
termination_by t => sizeOf t
decreasing_by
  all_goals simp only [function.sizeOf_spec, constant.sizeOf_spec]
  · have := List.sizeOf_lt_of_mem ‹_ ∈ parameters›; omega
  · have := sizeOf_snd_lt_of_mem ‹_ ∈ arguments›; omega
  · omega

/-- How the type is written: `Name<A, B>` and `(label: A, B) -> C`. -/
def text : StaticType → String
  | .variable name | .generic name => name
  | .constant name parameters =>
    if parameters.isEmpty then name
    else name ++ "<" ++ String.intercalate ", " (parameters.map text) ++ ">"
  | .function arguments result =>
    "(" ++ String.intercalate ", " (arguments.map fun argument =>
        match argument.1 with
        | some label => label ++ ": " ++ text argument.2
        | none => text argument.2) ++
      ") -> " ++ text result
termination_by t => sizeOf t
decreasing_by
  all_goals simp only [function.sizeOf_spec, constant.sizeOf_spec]
  · have := List.sizeOf_lt_of_mem ‹_ ∈ parameters›; omega
  · have := sizeOf_snd_lt_of_mem ‹_ ∈ arguments›; omega
  · have := sizeOf_snd_lt_of_mem ‹_ ∈ arguments›; omega
  · omega

/-- A constant without parameters. -/
abbrev named (name : String) : StaticType :=
  .constant name []

def unit : StaticType := named "Unit"
def boolean : StaticType := named "Boolean"
def number : StaticType := named "Number"
def string : StaticType := named "String"
def color : StaticType := named "Color"

/-- The type of arrays of a type of elements. -/
def array (element : StaticType) : StaticType :=
  .constant "Array" [element]

/-- The names of the types that the language itself gives meaning to. -/
def builtinNames : List String :=
  ["Boolean", "Number", "String", "Array", "Color"]

def isVariable : StaticType → Bool
  | .variable _ => true
  | _ => false

/-- Whether a variable occurs in the type. -/
def occurs (name : String) (type : StaticType) : Bool :=
  type.freeVariables.contains name

def hasGenerics (type : StaticType) : Bool :=
  !type.generics.isEmpty

/-- The distinct generic parameters, in the order of their first occurrence. -/
def genericNames (type : StaticType) : List String :=
  type.generics.eraseDups

/-- Replaces generic parameters; one without a replacement is kept. -/
def replaceGenerics (replacement : String → Option StaticType) (type : StaticType) : StaticType :=
  type.mapLeaves .variable fun name => (replacement name).getD (.generic name)

/-- Replaces one variable. -/
def replaceVariable (type : StaticType) (name : String) (replacement : StaticType) : StaticType :=
  type.mapLeaves (fun other => if other = name then replacement else .variable other) .generic

theorem weight_pos (type : StaticType) : 0 < type.weight := by
  cases type <;> rw [weight] <;> omega

/-- To prove a fact of every type it is enough to derive it from the parts of a type. -/
theorem parts_induction {motive : StaticType → Prop}
    (onVariable : ∀ name, motive (.variable name)) (onGeneric : ∀ name, motive (.generic name))
    (onConstant : ∀ name parameters, (∀ type ∈ parameters, motive type) →
      motive (.constant name parameters))
    (onFunction : ∀ arguments result, (∀ argument ∈ arguments, motive argument.2) →
      motive result → motive (.function arguments result)) : ∀ type, motive type
  | .variable name => onVariable name
  | .generic name => onGeneric name
  | .constant name parameters =>
    onConstant name parameters fun type _ =>
      parts_induction onVariable onGeneric onConstant onFunction type
  | .function arguments result =>
    onFunction arguments result
      (fun argument _ => parts_induction onVariable onGeneric onConstant onFunction argument.2)
      (parts_induction onVariable onGeneric onConstant onFunction result)
termination_by type => sizeOf type
decreasing_by
  all_goals simp only [function.sizeOf_spec, constant.sizeOf_spec]
  · have := List.sizeOf_lt_of_mem ‹_ ∈ parameters›; omega
  · have := sizeOf_snd_lt_of_mem ‹_ ∈ arguments›; omega
  · omega

/-- Two maps of leaves in a row are one map. -/
theorem mapLeaves_mapLeaves (f g f' g' : String → StaticType) (type : StaticType) :
    (type.mapLeaves f g).mapLeaves f' g' =
      type.mapLeaves (fun name => (f name).mapLeaves f' g')
        (fun name => (g name).mapLeaves f' g') := by
  induction type using parts_induction with
  | onVariable name => simp only [mapLeaves]
  | onGeneric name => simp only [mapLeaves]
  | onConstant name parameters ih =>
    simp only [mapLeaves, List.map_map, constant.injEq, true_and]
    exact List.map_congr_left ih
  | onFunction arguments result ihArguments ihResult =>
    simp only [mapLeaves, List.map_map, function.injEq, ihResult, and_true]
    refine List.map_congr_left fun argument mem => ?_
    simp only [Function.comp_apply, ihArguments argument mem]

end StaticType

end DeclLang
