import DeclLang.Proofs.TypedValues

/-!
# Values that fit types

What a value has to be like so that nothing that is done to values of a type goes wrong.

**Judgment.**  `Value.Fits`: a boolean, a number, a string, a color and an array have the content
that their type says; a function can be called as its type says.  No operator, no condition and no
native function looks into a value of any other type, so any value fits it (`StaticType.isOpaque`).
What function values take and give is not written in them; it is a parameter of the judgment.

**Results.**
* `Operator.apply_fits`: an operator on fitting operands gives a fitting result.
* `Builtin.call_fits`: so does a native function on fitting arguments (`Builtin.Takes`).
-/

namespace DeclLang

open Inference (Operates)

/-- The errors that say that a value is not of the type that it should be of. -/
def EvalError.IsTypeError : EvalError → Prop
  | notABoolean _ | invalidOperands .. | invalidBuiltinArguments _ | notCallable _ => True
  | _ => False

/-- A value with some property, or an error that is not about types. -/
def Outcome {α : Type} (gives : α → Prop) : Except EvalError α → Prop
  | .ok a => gives a
  | .error error => ¬error.IsTypeError

theorem Outcome.imp {α : Type} {gives other : α → Prop} {outcome : Except EvalError α}
    (h : Outcome gives outcome) (imp : ∀ a, gives a → other a) : Outcome other outcome := by
  cases outcome with
  | ok a => exact imp a h
  | error error => exact h

namespace StaticType

/-- The type is a constant that the language itself gives no meaning to. -/
def isNominal : StaticType → Bool
  | .constant name _ => !builtinNames.contains name
  | _ => false

/-- Nothing looks into values of the type: it is unsolved, a generic parameter, or a constant that
the language itself gives no meaning to. -/
def isOpaque : StaticType → Bool
  | .variable _ | .generic _ => true
  | type@(.constant ..) => type.isNominal
  | .function .. => false

/-- What becomes of a type keeps its constants. -/
def KeepsConstants (f : StaticType → StaticType) : Prop :=
  ∀ name parameters, f (.constant name parameters) = .constant name (parameters.map f)

theorem isOpaque_of_isNominal {f : StaticType → StaticType} (keeps : KeepsConstants f)
    {type : StaticType} (nominal : type.isNominal = true) : (f type).isOpaque = true := by
  cases type with
  | constant name parameters =>
    rw [keeps]
    exact nominal
  | _ => cases nominal

end StaticType

namespace Builtin

/-- What the native functions that are not generic take and give. -/
def fixedSignatures : List (String × List StaticType × StaticType) :=
  [("Boolean.and", [.boolean, .boolean], .boolean),
    ("Boolean.or", [.boolean, .boolean], .boolean),
    ("Boolean.not", [.boolean], .boolean),
    ("Boolean.isEqual", [.boolean, .boolean], .boolean),
    ("Number.add", [.number, .number], .number),
    ("Number.subtract", [.number, .number], .number),
    ("Number.multiply", [.number, .number], .number),
    ("Number.divide", [.number, .number], .number),
    ("Number.isEqual", [.number, .number], .boolean),
    ("Number.isLessThan", [.number, .number], .boolean),
    ("Number.isGreaterThan", [.number, .number], .boolean),
    ("Number.isLessThanOrEqual", [.number, .number], .boolean),
    ("Number.isGreaterThanOrEqual", [.number, .number], .boolean),
    ("Number.range", [.number, .number], .array .number),
    ("String.isEqual", [.string, .string], .boolean),
    ("String.concat", [.string, .string], .string)]

/-- What native functions take and give, where arrays have elements of a given type. -/
def signatures (element : StaticType) : List (String × List StaticType × StaticType) :=
  fixedSignatures ++ [("Array.at", [.array element, .number], element),
    ("Array.count", [.array element], .number)]

/-- The native function with the path takes arguments of some types and gives a result of
another. -/
def Takes (path : String) (arguments : List StaticType) (result : StaticType) : Prop :=
  ∃ element, (path, arguments, result) ∈ signatures element

theorem Takes.map {f : StaticType → StaticType} (keeps : StaticType.KeepsConstants f)
    {path : String} {arguments : List StaticType} {result : StaticType}
    (takes : Takes path arguments result) : Takes path (arguments.map f) (f result) := by
  obtain ⟨element, mem⟩ := takes
  have mapped : signatures (f element) =
      (signatures element).map fun entry => (entry.1, entry.2.1.map f, f entry.2.2) := by
    simp only [signatures, fixedSignatures, StaticType.boolean, StaticType.number,
      StaticType.string, StaticType.array, List.map_append, List.map_cons, List.map_nil, keeps _ _]
  refine ⟨f element, ?_⟩
  rw [mapped]
  exact List.mem_map_of_mem mem

/-- The types that elements of arrays can have there. -/
def elements (arguments : List StaticType) (result : StaticType) : List StaticType :=
  result :: arguments.flatMap fun
    | .constant _ parameters => parameters
    | _ => []

theorem takes_iff {path : String} {arguments : List StaticType} {result : StaticType} :
    Takes path arguments result ↔
      ∃ element ∈ elements arguments result, (path, arguments, result) ∈ signatures element := by
  refine ⟨fun ⟨element, mem⟩ => ?_, fun ⟨element, _, mem⟩ => ⟨element, mem⟩⟩
  rcases List.mem_append.1 mem with fixed | generic
  · exact ⟨result, List.mem_cons_self, List.mem_append_left _ fixed⟩
  · simp only [List.mem_cons, Prod.mk.injEq, List.not_mem_nil, or_false] at generic
    rcases generic with ⟨rfl, rfl, rfl⟩ | ⟨rfl, rfl, rfl⟩
    · exact ⟨result, List.mem_cons_self, mem⟩
    · exact ⟨element, by simp [elements, StaticType.array], mem⟩

instance (path : String) (arguments : List StaticType) (result : StaticType) :
    Decidable (Takes path arguments result) :=
  decidable_of_iff _ takes_iff.symm

end Builtin

/-- The value is of the type as far as anything looks at it.  A function value takes and gives what
is said of its serial number. -/
inductive Value.Fits (signs : Nat → StaticType → Prop) : Value → StaticType → Prop
  | any {value : Value} {type : StaticType} (h : type.isOpaque = true) : Fits signs value type
  | boolean {type : StaticType} (b : Bool) : Fits signs (.mk type (.boolean b)) .boolean
  | number {type : StaticType} (x : Float) : Fits signs (.mk type (.number x)) .number
  | string {type : StaticType} (s : String) : Fits signs (.mk type (.text s)) .string
  | color {type : StaticType} (s : String) : Fits signs (.mk type (.text s)) .color
  | array {type element : StaticType} {items : List Value}
      (each : ∀ item ∈ items, Fits signs item element) :
      Fits signs (.mk type (.array items)) (.array element)
  | native {type result : StaticType} {path : String}
      {arguments : List (Option String × StaticType)}
      (takes : Builtin.Takes path (arguments.map Prod.snd) result) :
      Fits signs (.mk type (.builtin path)) (.function arguments result)
  | closure {type result : StaticType} {name : String} {declaration : NodeId} {serial : Nat}
      {arguments : List (Option String × StaticType)}
      (signed : signs serial (.function arguments result)) :
      Fits signs (.mk type (.closure name declaration serial)) (.function arguments result)
  | recordConstructor {type result : StaticType} {record : NodeId}
      {fields : List (String × Option Value)} {arguments : List (Option String × StaticType)}
      (h : result.isOpaque = true) :
      Fits signs (.mk type (.recordConstructor record fields)) (.function arguments result)
  | caseConstructor {type result : StaticType} {caseName : String}
      {arguments : List (Option String × StaticType)} (h : result.isOpaque = true) :
      Fits signs (.mk type (.caseConstructor caseName)) (.function arguments result)

namespace Value.Fits

variable {signs more : Nat → StaticType → Prop} {value : Value} {type element : StaticType}

/-- What fits goes on to fit when more is said of function values. -/
theorem mono (said : ∀ serial type, signs serial type → more serial type)
    (fits : value.Fits signs type) : value.Fits more type := by
  induction fits with
  | any h => exact .any h
  | boolean b => exact .boolean b
  | number x => exact .number x
  | string s => exact .string s
  | color s => exact .color s
  | array _ ih => exact .array ih
  | native takes => exact .native takes
  | closure signed => exact .closure (said _ _ signed)
  | recordConstructor h => exact .recordConstructor h
  | caseConstructor h => exact .caseConstructor h

theorem boolean_inv (fits : value.Fits signs .boolean) : ∃ b, value.content = .boolean b := by
  generalize same : StaticType.boolean = type at fits
  cases fits with
  | any h => exact absurd (same ▸ h) (by decide)
  | boolean b => exact ⟨b, rfl⟩
  | native | closure | recordConstructor | caseConstructor => cases same
  | _ => exact absurd (StaticType.constant.inj same).1 (by decide)

theorem number_inv (fits : value.Fits signs .number) : ∃ x, value.content = .number x := by
  generalize same : StaticType.number = type at fits
  cases fits with
  | any h => exact absurd (same ▸ h) (by decide)
  | number x => exact ⟨x, rfl⟩
  | native | closure | recordConstructor | caseConstructor => cases same
  | _ => exact absurd (StaticType.constant.inj same).1 (by decide)

theorem string_inv (fits : value.Fits signs .string) : ∃ s, value.content = .text s := by
  generalize same : StaticType.string = type at fits
  cases fits with
  | any h => exact absurd (same ▸ h) (by decide)
  | string s => exact ⟨s, rfl⟩
  | native | closure | recordConstructor | caseConstructor => cases same
  | _ => exact absurd (StaticType.constant.inj same).1 (by decide)

theorem array_inv (fits : value.Fits signs (.array element)) :
    ∃ items, value.content = .array items ∧ ∀ item ∈ items, item.Fits signs element := by
  generalize same : StaticType.array element = type at fits
  cases fits with
  | any h =>
    subst same
    cases h
  | array each =>
    obtain ⟨-, elements⟩ := StaticType.constant.inj same
    cases elements
    exact ⟨_, rfl, each⟩
  | native | closure | recordConstructor | caseConstructor => cases same
  | _ => exact absurd (StaticType.constant.inj same).1 (by decide)

end Value.Fits

section Operators

variable {signs : Nat → StaticType → Prop}

/-- An operator on operands that fit the type it takes gives a result that fits the type it gives,
or it divides by zero. -/
theorem Operator.apply_fits {operator : Operator} {operand result : StaticType}
    (operates : Operates operator operand result)
    (strict : Strict.decisive? operator = none) {left right : Value}
    (first : left.Fits signs operand) (second : right.Fits signs operand) :
    Outcome (fun value => value.Fits signs result) (operator.apply left right) := by
  obtain ⟨_, left⟩ := left
  obtain ⟨_, right⟩ := right
  cases operates with
  | arithmetic isArithmetic =>
    obtain ⟨x, rfl⟩ := first.number_inv
    obtain ⟨y, rfl⟩ := second.number_inv
    cases operator with
    | add | subtract | multiply => exact .number _
    | divide =>
      change Outcome _ (Operator.divide.apply (.number x) (.number y))
      rw [apply_divide]
      split
      · exact id
      · exact .number _
    | _ => cases isArithmetic
  | ordering isOrdering =>
    obtain ⟨x, rfl⟩ := first.number_inv
    obtain ⟨y, rfl⟩ := second.number_inv
    cases operator with
    | less | greater | lessOrEqual | greaterOrEqual => exact .boolean _
    | _ => cases isOrdering
  | equal | notEqual => exact .boolean _
  | and | or => cases strict

end Operators

namespace Builtin

variable {signs : Nat → StaticType → Prop}

/-- The native function gives something fitting to fitting arguments. -/
def Sound (signs : Nat → StaticType → Prop) (native : Native) (arguments : List StaticType)
    (result : StaticType) : Prop :=
  ∀ values, List.Forall₂ (Value.Fits signs) values arguments →
    ∃ outcome, native values = some outcome ∧
      Outcome (fun value => value.Fits signs result) outcome

theorem sound_pair {native : Native} {left right result : StaticType}
    (h : ∀ a b, a.Fits signs left → b.Fits signs right → ∃ outcome, native [a, b] = some outcome ∧
      Outcome (fun value => value.Fits signs result) outcome) :
    Sound signs native [left, right] result := by
  intro values fit
  obtain ⟨a, _, first, rest, rfl⟩ := List.forall₂_cons_right_iff.1 fit
  obtain ⟨b, _, second, none, rfl⟩ := List.forall₂_cons_right_iff.1 rest
  obtain rfl := List.forall₂_nil_right_iff.1 none
  exact h a b first second

theorem sound_single {native : Native} {argument result : StaticType}
    (h : ∀ a, a.Fits signs argument → ∃ outcome, native [a] = some outcome ∧
      Outcome (fun value => value.Fits signs result) outcome) :
    Sound signs native [argument] result := by
  intro values fit
  obtain ⟨a, _, first, none, rfl⟩ := List.forall₂_cons_right_iff.1 fit
  obtain rfl := List.forall₂_nil_right_iff.1 none
  exact h a first

theorem sound_ofBooleans (f : Bool → Bool → Bool) :
    Sound signs (ofBooleans f) [.boolean, .boolean] .boolean :=
  sound_pair fun a b first second => by
    obtain ⟨x, left⟩ := first.boolean_inv
    obtain ⟨y, right⟩ := second.boolean_inv
    refine ⟨.ok (.boolean (f x y)), ?_, .boolean _⟩
    simp only [ofBooleans, Value.boolean?, left, right]
    rfl

theorem sound_ofNumbers {f : Float → Float → Except EvalError Value} {result : StaticType}
    (h : ∀ x y, Outcome (fun value => value.Fits signs result) (f x y)) :
    Sound signs (ofNumbers f) [.number, .number] result :=
  sound_pair fun a b first second => by
    obtain ⟨x, left⟩ := first.number_inv
    obtain ⟨y, right⟩ := second.number_inv
    refine ⟨f x y, ?_, h x y⟩
    simp only [ofNumbers, Value.number?, left, right]
    rfl

theorem sound_ofComparison (f : Float → Float → Bool) :
    Sound signs (ofComparison f) [.number, .number] .boolean :=
  sound_ofNumbers fun _ _ => .boolean _

theorem sound_ofArithmetic {operator : Operator} (isArithmetic : operator.isArithmetic = true) :
    Sound signs (ofArithmetic operator) [.number, .number] .number :=
  sound_ofNumbers fun x y => by
    cases operator with
    | add | subtract | multiply => exact .number _
    | divide =>
      have given : (Operator.divide.onNumbers? x y).getD (.error (.invalidOperands .divide
          (Value.number x).text (Value.number y).text)) =
            (if y == 0 then .error .divisionByZero else .ok (x / y) :
              Except EvalError Float).map Value.number := rfl
      rw [given]
      split
      · exact id
      · exact .number _
    | _ => cases isArithmetic

theorem sound_ofStrings {f : String → String → Value} {result : StaticType}
    (h : ∀ s t, (f s t).Fits signs result) :
    Sound signs (ofStrings f) [.string, .string] result :=
  sound_pair fun a b first second => by
    obtain ⟨s, left⟩ := first.string_inv
    obtain ⟨t, right⟩ := second.string_inv
    refine ⟨.ok (f s t), ?_, h s t⟩
    simp only [ofStrings, Value.text?, left, right]
    rfl

theorem outcome_range (start stop : Float) :
    Outcome (fun value => value.Fits signs (.array .number)) (range start stop) := by
  unfold range
  split
  · dsimp only
    split
    · exact id
    · refine .array fun item mem => ?_
      obtain ⟨_, -, rfl⟩ := List.mem_map.1 mem
      exact .number _
  · exact id

theorem outcome_itemAt {items : List Value} {element : StaticType}
    (each : ∀ item ∈ items, item.Fits signs element) (index : Float) :
    Outcome (fun value => value.Fits signs element) (itemAt items index) := by
  unfold itemAt
  dsimp only
  split
  · rename_i item found
    split at found
    · exact each item (List.mem_of_getElem? found)
    · cases found
  · exact id

/-- A native function on arguments that fit what it takes gives something that fits what it
gives, or it fails for another reason. -/
theorem call_fits {path : String} {arguments : List StaticType} {result : StaticType}
    (takes : Takes path arguments result) {values : List Value}
    (fit : List.Forall₂ (Value.Fits signs) values arguments) :
    Outcome (fun value => value.Fits signs result) (call path values) := by
  -- Paths are looked up by evaluation, one after the other.
  have called {native : Native} (entry : table.lookup path = some native)
      (sound : Sound signs native arguments result) :
      Outcome (fun value => value.Fits signs result) (call path values) := by
    obtain ⟨outcome, given, fits⟩ := sound values fit
    rw [call, entry, Option.bind_some, given]
    exact fits
  obtain ⟨element, mem⟩ := takes
  simp only [signatures, fixedSignatures, List.cons_append, List.nil_append, List.mem_cons,
    Prod.mk.injEq, List.not_mem_nil, or_false] at mem
  rcases mem with ⟨rfl, rfl, rfl⟩ | ⟨rfl, rfl, rfl⟩ | ⟨rfl, rfl, rfl⟩ | ⟨rfl, rfl, rfl⟩ |
    ⟨rfl, rfl, rfl⟩ | ⟨rfl, rfl, rfl⟩ | ⟨rfl, rfl, rfl⟩ | ⟨rfl, rfl, rfl⟩ | ⟨rfl, rfl, rfl⟩ |
    ⟨rfl, rfl, rfl⟩ | ⟨rfl, rfl, rfl⟩ | ⟨rfl, rfl, rfl⟩ | ⟨rfl, rfl, rfl⟩ | ⟨rfl, rfl, rfl⟩ |
    ⟨rfl, rfl, rfl⟩ | ⟨rfl, rfl, rfl⟩ | ⟨rfl, rfl, rfl⟩ | ⟨rfl, rfl, rfl⟩
  · exact called rfl (sound_ofBooleans _)
  · exact called rfl (sound_ofBooleans _)
  · refine called rfl (sound_single fun a first => ?_)
    obtain ⟨b, found⟩ := first.boolean_inv
    refine ⟨.ok (.boolean !b), ?_, .boolean _⟩
    simp only [negation, Value.boolean?, found]
    rfl
  · exact called rfl (sound_ofBooleans _)
  · exact called rfl (sound_ofArithmetic rfl)
  · exact called rfl (sound_ofArithmetic rfl)
  · exact called rfl (sound_ofArithmetic rfl)
  · exact called rfl (sound_ofArithmetic rfl)
  · exact called rfl (sound_ofComparison _)
  · exact called rfl (sound_ofComparison _)
  · exact called rfl (sound_ofComparison _)
  · exact called rfl (sound_ofComparison _)
  · exact called rfl (sound_ofComparison _)
  · exact called rfl (sound_ofNumbers outcome_range)
  · exact called rfl (sound_ofStrings fun _ _ => .boolean _)
  · exact called rfl (sound_ofStrings fun _ _ => .string _)
  · refine called rfl (sound_pair fun a b first second => ?_)
    obtain ⟨items, left, each⟩ := first.array_inv
    obtain ⟨x, right⟩ := second.number_inv
    refine ⟨itemAt items x, ?_, outcome_itemAt each x⟩
    simp only [arrayAt, Value.items?, Value.number?, left, right]
    rfl
  · refine called rfl (sound_single fun a first => ?_)
    obtain ⟨items, found, -⟩ := first.array_inv
    refine ⟨.ok (.number (Float.ofNat items.length)), ?_, .number _⟩
    simp only [arrayCount, Value.items?, found]
    rfl

end Builtin

end DeclLang
