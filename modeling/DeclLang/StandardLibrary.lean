import DeclLang.Syntax.Numbered

/-!
# The standard library

An ordinary program that comes before all others.  It declares the types of the literals as
records, optional values as an enumeration, and one namespace of functions for each type.  The
functions have no body: evaluation finds a native function under the path of each.
-/

namespace DeclLang

namespace StandardLibrary

open Numbered

/-- A type annotation. -/
def typed (name : String) (arguments : List (Numbered Node) := []) : Numbered Node :=
  node do return .typeName name (← inOrder arguments)

def generics (names : List String) : Numbered (List Node) :=
  inOrder (names.map fun name => node do return .genericParameter name)

def namespaceOf (name : String) (declarations : List (Numbered Node)) : Numbered Node :=
  node do return .namespaceDecl name (← inOrder declarations)

/-- A type without fields, to be given to literals. -/
def literalType (name : String) (parameters : List String := []) : Numbered Node :=
  node do return .recordDecl name (← generics parameters) []

def parameter (slot : String × Numbered Node) : Numbered Node :=
  node do return .parameter slot.1 (← slot.2) none

/-- A native function, generic in the given names. -/
def nativeFunction (name : String) (parameters : List (String × Numbered Node))
    (result : Numbered Node) (genericNames : List String := []) : Numbered Node :=
  node do
    let generics ← generics genericNames
    let parameters ← inOrder (parameters.map parameter)
    return .functionDecl name generics parameters (← result) []

/-- A native function of two operands of one type. -/
def operation (operand result name : String) : Numbered Node :=
  nativeFunction name [("a", typed operand), ("b", typed operand)] (typed result)

/-- A value of any type, or none. -/
def optionalType : Numbered Node :=
  node do
    let generics ← generics ["Wrapped"]
    let value := node do return .enumerationCase "value" [← typed "Wrapped"]
    let none := node do return .enumerationCase "none" []
    return .enumerationDecl "Optional" generics (← inOrder [value, none])

def booleanFunctions : Numbered Node :=
  namespaceOf "Boolean" [
    operation "Boolean" "Boolean" "and",
    operation "Boolean" "Boolean" "or",
    nativeFunction "not" [("value", typed "Boolean")] (typed "Boolean"),
    operation "Boolean" "Boolean" "isEqual"]

def numberFunctions : Numbered Node :=
  namespaceOf "Number"
    (["add", "subtract", "multiply", "divide"].map (operation "Number" "Number") ++
      ["isEqual", "isLessThan", "isGreaterThan", "isLessThanOrEqual", "isGreaterThanOrEqual"].map
        (operation "Number" "Boolean") ++
      [nativeFunction "range" [("from", typed "Number"), ("to", typed "Number")]
        (typed "Array" [typed "Number"])])

def stringFunctions : Numbered Node :=
  namespaceOf "String" [
    operation "String" "Boolean" "isEqual",
    operation "String" "String" "concat"]

def arrayFunctions : Numbered Node :=
  let array := ("array", typed "Array" [typed "Element"])
  namespaceOf "Array" [
    nativeFunction "at" [array, ("index", typed "Number")] (typed "Element") ["Element"],
    nativeFunction "count" [array] (typed "Number") ["Element"]]

/-- The whole library. -/
def tree : Numbered Node :=
  node do
    return .program (← inOrder [
      literalType "Boolean", literalType "Number", literalType "String", literalType "Color",
      literalType "Array" ["Element"], optionalType,
      booleanFunctions, numberFunctions, stringFunctions, arrayFunctions])

/-- The library with its nodes numbered upwards from `first` on. -/
def program (first : NodeId) : Node :=
  startingAt first tree

end StandardLibrary

end DeclLang
