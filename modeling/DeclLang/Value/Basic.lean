import DeclLang.Number.Shortest
import DeclLang.Syntax.Node
import DeclLang.Text.Quoted
import DeclLang.Types.StaticType

/-!
# Values

A value is a content together with a type.  `Content α` is one layer of content with inner values
of type `α`; `Value` ties the knot.  Functions are values too: native functions by their path,
constructors of records and of enumeration cases, and closures, which are known by the declaration
they come from and a serial number, one for every time the declaration was evaluated.
-/

namespace DeclLang

/-- One layer of content, with inner values of type `α`. -/
inductive Content (α : Type) where
  | unit
  | boolean (value : Bool)
  | number (value : Float)
  | text (value : String)
  | array (items : List α)
  | enumeration (caseName : String) (data : List α)
  | record (fields : List (String × α))
  | builtin (path : String)
  | closure (name : String) (declaration : NodeId) (serial : Nat)
  | recordConstructor (record : NodeId) (fields : List (String × Option α))
  | caseConstructor (caseName : String)
  deriving Inhabited

/-- A value: a type and a content. -/
inductive Value where
  | mk (type : StaticType) (content : Content Value)
  deriving Inhabited

namespace Value

def type : Value → StaticType
  | mk type _ => type

def content : Value → Content Value
  | mk _ content => content

@[simp] theorem type_mk (type : StaticType) (content : Content Value) :
    (mk type content).type = type := rfl

@[simp] theorem content_mk (type : StaticType) (content : Content Value) :
    (mk type content).content = content := rfl

def unit : Value := mk .unit .unit

def boolean (value : Bool) : Value := mk .boolean (.boolean value)

def number (value : Float) : Value := mk .number (.number value)

def string (value : String) : Value := mk .string (.text value)

def color (value : String) : Value := mk .color (.text value)

/-- An array of values of a type of elements. -/
def array (element : StaticType) (items : List Value) : Value := mk (.array element) (.array items)

def isUnit (value : Value) : Bool :=
  match value.content with
  | .unit => true
  | _ => false

def boolean? (value : Value) : Option Bool :=
  match value.content with
  | .boolean b => some b
  | _ => none

def number? (value : Value) : Option Float :=
  match value.content with
  | .number x => some x
  | _ => none

def text? (value : Value) : Option String :=
  match value.content with
  | .text s => some s
  | _ => none

def items? (value : Value) : Option (List Value) :=
  match value.content with
  | .array items => some items
  | _ => none

/-- The case of an enumeration value and its data. -/
def case? (value : Value) : Option (String × List Value) :=
  match value.content with
  | .enumeration caseName data => some (caseName, data)
  | _ => none

/-- Whether the value can be called. -/
def isFunction (value : Value) : Bool :=
  match value.content with
  | .builtin _ | .closure .. | .recordConstructor .. | .caseConstructor _ => true
  | _ => false

/-- The first field of a record with a given name. -/
def field? (value : Value) (name : String) : Option Value :=
  match value.content with
  | .record fields => fields.lookup name
  | _ => none

mutual

/-- Whether two values are equal: the same type and equal contents. -/
def equal : Value → Value → Bool
  | mk s c, mk t d => decide (s = t) && equalContents c d

/-- Whether two contents are equal.  Numbers are compared as numbers, so a content with a NaN in it
is not even equal to itself; native functions are equal if their paths are, closures if they are
the same closure, constructors if they construct the same record or a case of the same name. -/
def equalContents : Content Value → Content Value → Bool
  | .unit, .unit => true
  | .boolean a, .boolean b => a == b
  | .number x, .number y => x == y
  | .text a, .text b => a == b
  | .array as, .array bs => equalItems as bs
  | .enumeration c as, .enumeration d bs => c == d && equalItems as bs
  | .record as, .record bs => equalFields as bs
  | .builtin p, .builtin q => p == q
  | .closure _ _ m, .closure _ _ n => m == n
  | .recordConstructor m _, .recordConstructor n _ => m == n
  | .caseConstructor c, .caseConstructor d => c == d
  | _, _ => false

/-- Whether two lists of values are equal item by item. -/
def equalItems : List Value → List Value → Bool
  | [], [] => true
  | a :: as, b :: bs => equal a b && equalItems as bs
  | _, _ => false

/-- Whether two lists of fields are equal field by field. -/
def equalFields : List (String × Value) → List (String × Value) → Bool
  | [], [] => true
  | (m, a) :: as, (n, b) :: bs => m == n && equal a b && equalFields as bs
  | _, _ => false

end

/-- How a number is shown: a whole number below a thousand million million as an integer, any other
number by its shortest decimal. -/
def numberText (x : Float) : String :=
  let exact := Binary64.ofFloat x
  match exact.whole? with
  | some n => if n.natAbs < 1000000000000000 then toString n else exact.text
  | none => exact.text

private theorem sizeOf_snd_lt_of_mem {field : String × Value} {fields : List (String × Value)}
    (h : field ∈ fields) : sizeOf field.2 < sizeOf fields := by
  have := List.sizeOf_lt_of_mem h
  obtain ⟨name, value⟩ := field
  simp at this ⊢
  omega

/-- How a value is shown.  Strings are quoted and colors are not; a record shows its type, an
enumeration value only its case. -/
def text : Value → String
  | mk _ .unit => "unit"
  | mk _ (.boolean b) => if b then "true" else "false"
  | mk _ (.number x) => numberText x
  | mk type (.text s) => if type = .color then s else Text.quote s
  | mk _ (.array items) => "[" ++ String.intercalate ", " (items.map text) ++ "]"
  | mk _ (.enumeration caseName data) =>
    if data.isEmpty then caseName
    else caseName ++ "(" ++ String.intercalate ", " (data.map text) ++ ")"
  | mk type (.record fields) =>
    type.text ++ "(" ++
      String.intercalate ", " (fields.map fun field => field.1 ++ ": " ++ text field.2) ++ ")"
  | mk _ (.builtin path) => "<builtin " ++ path ++ ">"
  | mk _ (.closure name _ _) => "<function " ++ name ++ ">"
  | mk _ (.recordConstructor _ _) => "<record constructor>"
  | mk _ (.caseConstructor caseName) => "<case " ++ caseName ++ ">"
termination_by value => sizeOf value
decreasing_by
  all_goals simp only [mk.sizeOf_spec, Content.array.sizeOf_spec,
    Content.enumeration.sizeOf_spec, Content.record.sizeOf_spec]
  · have := List.sizeOf_lt_of_mem ‹_ ∈ items›; omega
  · have := List.sizeOf_lt_of_mem ‹_ ∈ data›; omega
  · have := sizeOf_snd_lt_of_mem ‹_ ∈ fields›; omega

end Value

end DeclLang
