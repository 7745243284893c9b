import DeclLang.Proofs.DisciplinedPrograms

/-!
# Values at their nodes

What the values in a context have to be like so that whoever reads them finds what the types say.

**Input.**  A checked program, and the function values made so far.

**Judgments.**
* `Compilation.Represents`: the content is what evaluation makes of a function, a record or an
  enumeration case.
* `Compilation.Admits`: the value can stand at a node.  At a reference to such a declaration it
  represents the declaration; at an expression, a variable and a parameter it fits the solved type.
* `Context.Typed` and `Closure.Typed`: all values of a context and of a function value can stand
  where they do, and nothing in them has failed for its type.

**Results.**  All judgments stay true when more function values are made, and whatever evaluation
does to one context keeps it typed.
-/

namespace DeclLang

open StaticType (KeepsConstants)
open Inference (reached isTyped isPolymorphic IsReference)

/-- The function values made so far are still there later. -/
def Grown (made later : Array Closure) : Prop :=
  ∀ (serial : Nat) closure, made[serial]? = some closure → later[serial]? = some closure

namespace Grown

theorem refl (made : Array Closure) : Grown made made :=
  fun _ _ found => found

theorem trans {made later last : Array Closure} (h : Grown made later) (h' : Grown later last) :
    Grown made last :=
  fun serial closure found => h' serial closure (h serial closure found)

theorem push (made : Array Closure) (closure : Closure) : Grown made (made.push closure) := by
  intro serial other found
  have bound : serial < made.size := (Array.getElem?_eq_some_iff.1 found).1
  rw [Array.getElem?_push, if_neg (Nat.ne_of_lt bound)]
  exact found

end Grown

namespace StaticType

theorem keepsConstants_replaceGenerics (replacement : String → Option StaticType) :
    KeepsConstants (replaceGenerics replacement) :=
  fun name parameters => replaceGenerics_constant name parameters replacement

/-- A type without generic parameters has only itself as an instance. -/
theorem replaceGenerics_of_generics {type : StaticType} (none : type.generics = [])
    (replacement : String → Option StaticType) : type.replaceGenerics replacement = type := by
  refine (mapLeaves_congr (fun _ _ => rfl) fun name mem => ?_).trans type.mapLeaves_leaves
  rw [none] at mem
  cases mem

theorem KeepsConstants.comp {f g : StaticType → StaticType} (first : KeepsConstants f)
    (second : KeepsConstants g) : KeepsConstants fun type => f (g type) := by
  intro name parameters
  simp only [second _ _, first _ _, List.map_map, Function.comp_def]

end StaticType

namespace Compilation

section Erased

variable {compilation : Compilation}

/-- Nobody looks into the unit value. -/
theorem isOpaque_erased_unit : (compilation.erased .unit).isOpaque = true := by
  rw [show compilation.erased .unit = .unit from Compilation.erased_named "Unit"]
  decide

theorem erased_function (received : List (Option String × StaticType)) (result : StaticType) :
    compilation.erased (.function received result) =
      .function (received.map fun slot => (none, compilation.erased slot.2))
        (compilation.erased result) := by
  unfold erased Substitution.apply
  rw [StaticType.mapLeaves, StaticType.unlabeled, List.map_map]
  rfl

end Erased

variable (compilation : Compilation)

/-- A function value takes and gives what its declaration does. -/
def Signs (made : Array Closure) (serial : Nat) (type : StaticType) : Prop :=
  ∃ closure, made[serial]? = some closure ∧
    ∃ declared, compilation.typing.declarations[closure.declaration.id]? = some declared ∧
      compilation.erased declared = type

/-- The value fits the type, with the function values made so far. -/
abbrev Fits (made : Array Closure) (value : Value) (type : StaticType) : Prop :=
  value.Fits (compilation.Signs made) type

/-- The content is what evaluation makes of the declaration. -/
inductive Represents (made : Array Closure) (declaration : Node) : Content Value → Prop
  | native {path : String} (function : declaration.IsFunction)
    (h : compilation.native? declaration = some path) : Represents made declaration (.builtin path)
  | closure {name : String} {id : NodeId} {serial : Nat} {closure : Closure}
    (function : declaration.IsFunction) (h : compilation.native? declaration = none)
    (found : made[serial]? = some closure) (own : closure.declaration = declaration) :
    Represents made declaration (.closure name id serial)
  | recordConstructor {record : NodeId} {fields : List (String × Option Value)}
    (h : declaration.isConstructor = true) :
    Represents made declaration (.recordConstructor record fields)
  | caseConstructor {caseName : String} (h : declaration.isConstructor = true) :
    Represents made declaration (.caseConstructor caseName)

/-- The declaration has this identity, or a node with this identity refers to it. -/
def StandsFor (id : NodeId) (declaration : Node) : Prop :=
  compilation.index.get? id = some declaration ∨
    compilation.environment.declaration? id = some declaration

/-- The value can stand at the node with the identity. -/
structure Admits (made : Array Closure) (id : NodeId) (value : Value) : Prop where
  kind : ∀ node, compilation.index.get? id = some node →
    node.isExpression = true ∨ isPolymorphic node = true ∨ node.holdsValue = true
  represents : ∀ declaration, compilation.StandsFor id declaration →
    isPolymorphic declaration = true → compilation.Represents made declaration value.content
  expression : ∀ place ∈ reached none compilation.root, place.2.id = id →
    place.2.isExpression = true → ∀ own, compilation.typing.nodes[id]? = some own →
      compilation.Fits made value (compilation.erased own)
  held : ∀ declaration, compilation.index.get? id = some declaration →
    declaration.holdsValue = true → ∀ type, compilation.typing.declarations[id]? = some type →
      compilation.Fits made value (compilation.erased type)

variable {compilation} {made later : Array Closure} (grown : Grown made later)

section Growth

include grown

theorem Fits.grow {value : Value} {type : StaticType} (fits : compilation.Fits made value type) :
    compilation.Fits later value type :=
  fits.mono fun serial _ ⟨closure, found, declared⟩ => ⟨closure, grown serial closure found, declared⟩

theorem Represents.grow {declaration : Node} {content : Content Value}
    (represents : compilation.Represents made declaration content) :
    compilation.Represents later declaration content := by
  cases represents with
  | native function h => exact .native function h
  | closure function h found own => exact .closure function h (grown _ _ found) own
  | recordConstructor h => exact .recordConstructor h
  | caseConstructor h => exact .caseConstructor h

theorem Admits.grow {id : NodeId} {value : Value} (admits : compilation.Admits made id value) :
    compilation.Admits later id value where
  kind := admits.kind
  represents declaration stands polymorphic :=
    (admits.represents declaration stands polymorphic).grow grown
  expression place mem same expression own known :=
    (admits.expression place mem same expression own known).grow grown
  held declaration found holds type known := (admits.held declaration found holds type known).grow grown

end Growth

section Checked

variable (checked : compilation.Checked)

include checked

theorem Checked.get?_self {node : Node} (mem : node ∈ compilation.root.preorder) :
    compilation.index.get? node.id = some node :=
  NodeIndex.get?_of_mem checked.built mem

theorem Checked.eq_of_get? {node other : Node} (mem : node ∈ compilation.root.preorder)
    (found : compilation.index.get? node.id = some other) : other = node :=
  Option.some.inj (found.symm.trans (checked.get?_self mem))

/-- A node satisfies the rule of its kind. -/
theorem Checked.rule {place : Option Node × Node} (mem : place ∈ reached none compilation.root)
    (typed : isTyped place.2 = true) {own : StaticType}
    (known : compilation.typing.nodes[place.2.id]? = some own) :
    compilation.judgment.Rule place.1 place.2 own := by
  obtain ⟨_, stored, rule⟩ := checked.rules place mem typed
  exact Option.some.inj (stored.symm.trans known) ▸ rule

/-- A reference has an instance of the type of its declaration. -/
theorem Checked.refers {place : Option Node × Node} (mem : place ∈ reached none compilation.root)
    (isReference : IsReference place.2) {own : StaticType}
    (known : compilation.typing.nodes[place.2.id]? = some own) :
    compilation.judgment.Refers place.2.id own := by
  have rule := checked.rule mem
    (Node.isTyped_of_isExpression (Node.isExpression_of_isReference isReference)) known
  rcases isReference with ⟨_, kind⟩ | ⟨_, _, kind⟩ <;> rwa [Judgment.Rule, kind] at rule

/-- What stands for a declaration of the tree is the declaration, or it refers to it. -/
theorem Checked.eq_of_standsFor {node declaration : Node} (mem : node ∈ compilation.root.preorder)
    (plain : ¬IsReference node) (stands : compilation.StandsFor node.id declaration) :
    declaration = node := by
  rcases stands with own | refers
  · exact checked.eq_of_get? mem own
  · exact absurd (checked.references node mem declaration refers) plain

/-- What represents a declaration fits every instance of its type. -/
theorem fits_of_represents {declaration : Node} (mem : declaration ∈ compilation.root.preorder)
    {type : StaticType} (stored : compilation.typing.declarations[declaration.id]? = some type)
    (nominal : declaration.isConstructor = true →
      ∀ signature ∈ compilation.signature? declaration, signature.2.isNominal = true)
    {value : Value} (represents : compilation.Represents made declaration value.content)
    (replacement : String → Option StaticType) :
    compilation.Fits made value (compilation.erased (type.replaceGenerics replacement)) := by
  obtain ⟨own, content⟩ := value
  have declared := (checked.suitable declaration mem type stored).1
  have instance_ (received : List (Option String × StaticType)) (result : StaticType) :
      compilation.erased ((StaticType.function received result).replaceGenerics replacement) =
        .function (received.map fun slot =>
          (none, compilation.erased (slot.2.replaceGenerics replacement)))
          (compilation.erased (result.replaceGenerics replacement)) := by
    rw [StaticType.replaceGenerics, StaticType.mapLeaves, erased_function, List.map_map]
    rfl
  have keeps : KeepsConstants fun type => compilation.erased (type.replaceGenerics replacement) :=
    KeepsConstants.comp Compilation.erased_constant
      (StaticType.keepsConstants_replaceGenerics replacement)
  have signature {received : List (Option String × StaticType)} {result : StaticType}
      (same : type = .function received result) :
      compilation.signature? declaration = some (received.map Prod.snd, result) := by
    rw [signature?, stored, same]
  have opaque_ (constructs : declaration.isConstructor = true)
      {received : List (Option String × StaticType)} {result : StaticType}
      (same : type = .function received result) :
      (compilation.erased (result.replaceGenerics replacement)).isOpaque = true :=
    StaticType.isOpaque_of_isNominal keeps (nominal constructs _ (signature same))
  have constructed (constructs : declaration.isConstructor = true) :
      ∃ received result, type = .function received result := by
    obtain ⟨id, kind⟩ := declaration
    cases kind with
    | recordDecl =>
      obtain ⟨_, same, -⟩ := declared
      exact ⟨_, _, same⟩
    | enumerationCase =>
      obtain ⟨_, _, same, -⟩ := declared
      exact ⟨_, _, same⟩
    | _ => cases constructs
  have signed (function : declaration.IsFunction) :
      ∃ received result, type = .function received result := by
    obtain ⟨_, _, _, _, _, kind⟩ := function
    rw [Inference.DeclaredAs, kind] at declared
    obtain ⟨received, result, same, -⟩ := declared
    exact ⟨received, result, same⟩
  cases represents with
  | native function h =>
    obtain ⟨received, result, rfl⟩ := signed function
    have takes := ((checked.disciplined.native mem function h).2 _ (signature rfl)).map keeps
    rw [instance_]
    refine .native ?_
    rwa [List.map_map] at takes ⊢
  | closure function h found same =>
    obtain ⟨received, result, rfl⟩ := signed function
    have care := (checked.disciplined.foreign mem function h (signature rfl)).1
    have free : (StaticType.function received result).generics = [] := by
      rw [StaticType.generics, List.append_eq_nil_iff, List.flatMap_eq_nil_iff]
      exact ⟨fun slot among => care _ (List.mem_cons_of_mem _ (List.mem_map_of_mem among)),
        care _ List.mem_cons_self⟩
    rw [StaticType.replaceGenerics_of_generics free, erased_function]
    exact .closure ⟨_, found, _, same ▸ stored, Compilation.erased_function received result⟩
  | recordConstructor constructs =>
    obtain ⟨received, result, rfl⟩ := constructed constructs
    rw [instance_]
    exact .recordConstructor (opaque_ constructs rfl)
  | caseConstructor constructs =>
    obtain ⟨received, result, rfl⟩ := constructed constructs
    rw [instance_]
    exact .caseConstructor (opaque_ constructs rfl)

section Nodes

variable {place : Option Node × Node} (mem : place ∈ reached none compilation.root) {value : Value}

include mem

/-- An expression that is no reference admits what fits its type. -/
theorem admits_expression (expression : place.2.isExpression = true)
    (plain : ¬IsReference place.2) {own : StaticType}
    (known : compilation.typing.nodes[place.2.id]? = some own)
    (fits : compilation.Fits made value (compilation.erased own)) :
    compilation.Admits made place.2.id value := by
  have inside := Inference.mem_preorder_of_mem_reached mem
  refine ⟨fun node found => ?_, fun declaration stands polymorphic => ?_,
    fun other among same _ own stored => ?_, fun declaration found holds => ?_⟩
  · rw [checked.eq_of_get? inside found]
    exact .inl expression
  · rw [checked.eq_of_standsFor inside plain stands,
      Node.isPolymorphic_of_isExpression expression] at polymorphic
    cases polymorphic
  · cases known.symm.trans stored
    exact fits
  · rw [checked.eq_of_get? inside found, Node.holdsValue_of_isExpression expression] at holds
    cases holds

/-- A reference admits what its declaration admits. -/
theorem admits_reference (isReference : IsReference place.2) {id : NodeId}
    (resolved : compilation.scope.resolve place.2.id = some id)
    (admits : compilation.Admits made id value) : compilation.Admits made place.2.id value := by
  have inside := Inference.mem_preorder_of_mem_reached mem
  have expression := Node.isExpression_of_isReference isReference
  obtain ⟨declaration, among, rfl, named⟩ := checked.consistent.resolves _ _ resolved
  have got := checked.get?_self among
  have refers : compilation.environment.declaration? place.2.id = some declaration := by
    unfold Inference.Environment.declaration?
    rw [show compilation.environment.scope.resolve place.2.id = _ from resolved]
    exact got
  refine ⟨fun node found => ?_, fun other stands polymorphic => ?_,
    fun other at_ same _ own known => ?_, fun other found holds => ?_⟩
  · rw [checked.eq_of_get? inside found]
    exact .inl expression
  · rcases stands with self | there
    · rw [checked.eq_of_get? inside self,
        Node.isPolymorphic_of_isExpression expression] at polymorphic
      cases polymorphic
    · obtain rfl := Option.some.inj (refers.symm.trans there)
      exact admits.represents _ (.inl got) polymorphic
  · have refers' := checked.refers mem isReference known
    unfold Judgment.Refers at refers'
    rw [show compilation.judgment.environment.declaration? place.2.id = _ from refers] at refers'
    obtain ⟨type, declares, same⟩ := refers'
    split at same
    · rename_i polymorphic
      obtain ⟨replacement, same⟩ := same
      have same : compilation.erased own = _ := same
      rw [same]
      exact fits_of_represents checked among declares.1 (fun constructs _ =>
        checked.disciplined.constructor inside isReference refers constructs)
        (admits.represents _ (.inl got) polymorphic) replacement
    · rename_i monomorphic
      have same : compilation.erased own = compilation.erased type := same
      rw [same]
      rcases admits.kind _ got with inner | polymorphic | holds
      · rw [Node.declaredName?_of_isExpression inner] at named
        cases named
      · exact absurd polymorphic monomorphic
      · exact admits.held _ got holds type declares.1
  · rw [checked.eq_of_get? inside found, Node.holdsValue_of_isExpression expression] at holds
    cases holds

end Nodes

section Declarations

variable {declaration : Node} (inside : declaration ∈ compilation.root.preorder) {value : Value}

include inside

/-- A function, a record and an enumeration case admit what represents them. -/
theorem admits_polymorphic (polymorphic : isPolymorphic declaration = true)
    (represents : compilation.Represents made declaration value.content) :
    compilation.Admits made declaration.id value := by
  have apart (expression : declaration.isExpression = true) : False := by
    rw [Node.isPolymorphic_of_isExpression expression] at polymorphic
    cases polymorphic
  refine ⟨fun node found => ?_, fun other stands _ => ?_, fun place among same expression => ?_,
    fun other found holds => ?_⟩
  · rw [checked.eq_of_get? inside found]
    exact .inr (.inl polymorphic)
  · rwa [checked.eq_of_standsFor inside
      (fun isReference => apart (Node.isExpression_of_isReference isReference)) stands]
  · have own := Node.eq_of_id_eq checked.consistent.distinct
      (Inference.mem_preorder_of_mem_reached among) inside same
    exact (apart (own ▸ expression)).elim
  · rw [checked.eq_of_get? inside found] at holds
    rw [Node.isPolymorphic_of_holdsValue holds] at polymorphic
    cases polymorphic

/-- A variable and a parameter admit what fits their type. -/
theorem admits_held (holds : declaration.holdsValue = true)
    (fits : ∀ type, compilation.typing.declarations[declaration.id]? = some type →
      compilation.Fits made value (compilation.erased type)) :
    compilation.Admits made declaration.id value := by
  have apart (expression : declaration.isExpression = true) : False := by
    rw [Node.holdsValue_of_isExpression expression] at holds
    cases holds
  refine ⟨fun node found => ?_, fun other stands polymorphic => ?_,
    fun place among same expression => ?_, fun other found _ => ?_⟩
  · rw [checked.eq_of_get? inside found]
    exact .inr (.inr holds)
  · rw [checked.eq_of_standsFor inside
      (fun isReference => apart (Node.isExpression_of_isReference isReference)) stands,
      Node.isPolymorphic_of_holdsValue holds] at polymorphic
    cases polymorphic
  · have own := Node.eq_of_id_eq checked.consistent.distinct
      (Inference.mem_preorder_of_mem_reached among) inside same
    exact (apart (own ▸ expression)).elim
  · exact fits

end Declarations

/-- A value at an operand fits the type of the operand. -/
theorem Admits.fits {place : Option Node × Node} (mem : place ∈ reached none compilation.root)
    {operand : Node} (among : operand ∈ place.2.operands) {type : StaticType}
    (hasType : compilation.judgment.HasType operand type) {value : Value}
    (admits : compilation.Admits made operand.id value) :
    compilation.Fits made value (compilation.erased type) := by
  have expression := checked.disciplined.operands place.2
    (Inference.mem_preorder_of_mem_reached mem) operand among
  have below := Inference.mem_reached_of_visited mem (Node.mem_visited_of_mem_operands among)
  obtain ⟨own, known, same⟩ := hasType
  have same : compilation.erased own = compilation.erased type := same
  exact same ▸ admits.expression _ below rfl expression own known

end Checked

end Compilation

open Compilation (Admits Fits)

/-- Nothing in the context is not what types say. -/
structure Context.Typed (compilation : Compilation) (made : Array Closure) (context : Context) :
    Prop where
  values : ∀ id value, context.value? id = some value → compilation.Admits made id value
  thunks : ∀ id thunk, context.thunk? id = some thunk →
    compilation.context.thunk? id = some thunk ∨
      ∃ error, thunk = .failed error ∧ ¬error.IsTypeError

/-- Nothing in the function value is not what types say. -/
structure Closure.Typed (compilation : Compilation) (made : Array Closure) (closure : Closure) :
    Prop where
  base : closure.base.Typed compilation made
  function : closure.declaration.IsFunction
  place : ∃ function?, (function?, closure.declaration) ∈ reached none compilation.root
  foreign : compilation.native? closure.declaration = none
  parameters : closure.parameters.map (fun parameter => (parameter.1, parameter.2.isSome)) =
    Call.parametersOf closure.declaration
  defaults : ∀ parameter ∈ closure.parameters, ∀ value, parameter.2 = some value →
    ∀ type, compilation.typing.declarations[parameter.1.id]? = some type →
      compilation.Fits made value (compilation.erased type)

namespace Context.Typed

variable {compilation : Compilation} {made later : Array Closure} {context other : Context}
  (typed : context.Typed compilation made)

include typed

theorem grow (grown : Grown made later) : context.Typed compilation later where
  values id value found := (typed.values id value found).grow grown
  thunks := typed.thunks

/-- Values may be dropped. -/
theorem drop (values : ∀ id value, other.value? id = some value → context.value? id = some value)
    (thunks : other.thunks = context.thunks) : other.Typed compilation made where
  values id value found := typed.values id value (values id value found)
  thunks id thunk found := by
    rw [Context.thunk?, thunks] at found
    exact typed.thunks id thunk found

theorem copy : context.copy.Typed compilation made :=
  typed.drop (fun _ _ found => found) rfl

theorem forget (ids : List NodeId) : (context.forget ids).Typed compilation made := by
  refine typed.drop (fun id value found => ?_) rfl
  rw [Context.value?_forget] at found
  split at found
  · cases found
  · exact found

theorem addValue {id : NodeId} {value : Value} (admits : compilation.Admits made id value) :
    (context.addValue id value).Typed compilation made where
  values other found known := by
    rw [Context.value?_addValue] at known
    split at known
    · rename_i same
      cases known
      exact same ▸ admits
    · exact typed.values other found known
  thunks := typed.thunks

theorem rebind {id : NodeId} {value : Value} (admits : compilation.Admits made id value) :
    (context.rebind id value).Typed compilation made :=
  (typed.addValue admits).drop (fun _ _ found => found) rfl

theorem addValues {bindings : List (NodeId × Value)}
    (admits : ∀ binding ∈ bindings, compilation.Admits made binding.1 binding.2) :
    (context.addValues bindings).Typed compilation made := by
  induction bindings generalizing context with
  | nil => exact typed
  | cons binding bindings ih =>
    exact ih (typed.addValue (admits binding List.mem_cons_self))
      fun other mem => admits other (List.mem_cons_of_mem _ mem)

theorem fail (id : NodeId) {error : EvalError} (fine : ¬error.IsTypeError) :
    (context.addThunk id (.failed error)).Typed compilation made where
  values := typed.values
  thunks other thunk found := by
    rw [Context.thunk?_addThunk] at found
    split at found
    · cases found
      exact .inr ⟨error, rfl, fine⟩
    · exact typed.thunks other thunk found

theorem adopt (turn : other.Typed compilation made) : (context.adopt other).Typed compilation made where
  values id value found := by
    rw [Context.value?_adopt] at found
    split at found
    · exact turn.values id value found
    · exact typed.values id value found
  thunks id thunk found := by
    rw [Context.thunk?, (Context.adopt_rest other).1] at found
    exact typed.thunks id thunk found

end Context.Typed

theorem Closure.Typed.grow {compilation : Compilation} {made later : Array Closure}
    {closure : Closure} (typed : closure.Typed compilation made) (grown : Grown made later) :
    closure.Typed compilation later :=
  { typed with
    base := typed.base.grow grown
    defaults := fun parameter mem value given type stored =>
      (typed.defaults parameter mem value given type stored).grow grown }

end DeclLang
