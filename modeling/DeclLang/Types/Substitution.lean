import Std.Data.TreeMap
import DeclLang.Types.StaticType

/-!
# Substitutions

A substitution binds type variables to types.  Bindings may mention bound variables again, so there
are two ways to use one: `apply` replaces once, `resolve` replaces until nothing changes or a
number of passes is used up.
-/

namespace DeclLang

/-- Types bound to type variables. -/
structure Substitution where
  bindings : Std.TreeMap String StaticType := ∅

namespace Substitution

/-- Binds a variable, in place of an earlier binding if there is one. -/
def bind (substitution : Substitution) (name : String) (type : StaticType) : Substitution :=
  ⟨substitution.bindings.insert name type⟩

/-- The type that a variable is bound to. -/
def get? (substitution : Substitution) (name : String) : Option StaticType :=
  substitution.bindings[name]?

/-- The number of bound variables. -/
def size (substitution : Substitution) : Nat :=
  substitution.bindings.size

def isEmpty (substitution : Substitution) : Bool :=
  substitution.bindings.isEmpty

/-- Replaces every bound variable once; what comes in its place is not looked at again. -/
def apply (substitution : Substitution) (type : StaticType) : StaticType :=
  type.mapLeaves (fun name => (substitution.get? name).getD (.variable name)) .generic

/-- Applies the substitution until the type stays the same, at most a number of times. -/
def resolveWithin (substitution : Substitution) : Nat → StaticType → StaticType
  | 0, type => type
  | passes + 1, type =>
    let next := substitution.apply type
    if next = type then next else substitution.resolveWithin passes next

/-- The passes that `resolve` makes at most. -/
def defaultPasses : Nat := 32

/-- Applies the substitution until the type stays the same, at most 32 times. -/
def resolve (substitution : Substitution) (type : StaticType) : StaticType :=
  substitution.resolveWithin defaultPasses type

/-- Applies the substitution as often as it has bindings.  Bindings without a cycle are used up by
then. -/
def resolveAll (substitution : Substitution) (type : StaticType) : StaticType :=
  substitution.resolveWithin substitution.size type

/-- Every binding resolved as far as the substitution goes. -/
def normalize (substitution : Substitution) : Substitution :=
  ⟨substitution.bindings.map fun _ type => substitution.resolveAll type⟩

end Substitution

end DeclLang
