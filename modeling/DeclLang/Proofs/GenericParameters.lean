import DeclLang.Proofs.FailedConstraints
import DeclLang.Proofs.Instances
import DeclLang.Proofs.ReferringNodes

/-!
# The generic parameters of a declared type

**Input.**  A program that compiles.

**Relations.**  `Inference.Involves`: a generic parameter is one of those that a declaration lists,
or an annotation of the declaration or of one of its parts refers to it.

**Argument.**  Types know generic parameters by name.  Working out the type of a declaration brings
in no name but those of generic parameters that the declaration involves
(`Inference.involved_declarationType`), and an instance of the type replaces exactly these names.

**Results.**
* `Compilation.generics_instantiated`: if a declaration involves none but its own generic
  parameters, only these are replaced in references to it.  Types of variables and parameters keep
  all of them, and two generic parameters are one type exactly if they have one name.
* `outerGeneric_instantiated`, `sameName_accepted`: the generic parameter of an enclosing function is
  replaced as well, and a parameter of the same name hides it from the types.
-/

namespace DeclLang

namespace Inference

/-- The annotations that a declaration is written with, apart from those of its parts. -/
def annotations (node : Node) : List Node :=
  match node.kind with
  | .functionDecl _ _ _ result _ => [result]
  | .enumerationCase _ values => values
  | .parameter _ ascription _ | .variableDecl _ (some ascription) _ => [ascription]
  | _ => []

/-- The generic parameters that a declaration lists. -/
def listedGenerics (node : Node) : List Node :=
  match node.kind with
  | .functionDecl _ generics .. | .recordDecl _ generics _ | .enumerationDecl _ generics _ =>
    generics
  | _ => []

/-- The generic parameters of a declaration; an enumeration case has those of the enumeration. -/
def ownGenerics (index : NodeIndex) (node : Node) : List Node :=
  match node.kind with
  | .enumerationCase .. => (index.parent? node.id).toList.flatMap listedGenerics
  | _ => listedGenerics node

section Types

variable (environment : Environment)

/-- A type name in the annotation refers to the generic parameter. -/
def Mentions (ascription generic : Node) : Prop :=
  ∃ inner ∈ ascription.preorder, environment.typeDeclaration? inner.id = some generic ∧
    ∃ name, generic.kind = .genericParameter name

/-- The generic parameter belongs to what the declaration is written with. -/
inductive Involves : Node → Node → Prop
  | mentioned {node ascription generic : Node} (annotates : ascription ∈ annotations node)
      (mentions : Mentions environment ascription generic) : Involves node generic
  | listed {node generic : Node} (mem : generic ∈ listedGenerics node) : Involves node generic
  | part {node part generic : Node} (mem : part ∈ typedParts environment.index node)
      (involves : Involves part generic) : Involves node generic
  | itself {node : Node} {name : String} (kind : node.kind = .genericParameter name) :
      Involves node node

/-- The generic parameters of the type have the names of allowed ones. -/
def Confined (allowed : Node → Prop) (type : StaticType) : Prop :=
  ∀ name ∈ type.generics, ∃ generic, allowed generic ∧ generic.declaredName? = some name

variable {environment} {allowed : Node → Prop}

theorem Confined.mono {more : Node → Prop} {type : StaticType} (h : Confined allowed type)
    (subset : ∀ generic, allowed generic → more generic) : Confined more type := fun name mem => by
  obtain ⟨generic, inside, named⟩ := h name mem
  exact ⟨generic, subset generic inside, named⟩

theorem confined_variable (name : String) : Confined allowed (.variable name) := by
  intro generic mem
  rw [StaticType.generics] at mem
  cases mem

theorem confined_generic {generic : Node} {name : String} (inside : allowed generic)
    (named : generic.declaredName? = some name) : Confined allowed (.generic name) := by
  intro other mem
  rw [StaticType.generics, List.mem_singleton] at mem
  exact ⟨generic, inside, mem ▸ named⟩

theorem confined_constant {name : String} {parameters : List StaticType}
    (each : ∀ parameter ∈ parameters, Confined allowed parameter) :
    Confined allowed (.constant name parameters) := by
  intro generic mem
  rw [StaticType.generics, List.mem_flatMap] at mem
  obtain ⟨parameter, inside, mem⟩ := mem
  exact each parameter inside generic mem

theorem confined_function {parameters : List (Option String × StaticType)} {result : StaticType}
    (each : ∀ parameter ∈ parameters, Confined allowed parameter.2) (last : Confined allowed result) :
    Confined allowed (.function parameters result) := by
  intro generic mem
  rw [StaticType.generics, List.mem_append, List.mem_flatMap] at mem
  rcases mem with ⟨parameter, inside, mem⟩ | mem
  · exact each parameter inside generic mem
  · exact last generic mem

theorem confined_genericTypes {generics : List Node} (name : String)
    (each : ∀ generic ∈ generics, allowed generic) :
    Confined allowed (.constant name (genericTypes generics)) := by
  refine confined_constant fun parameter mem => ?_
  obtain ⟨generic, inside, same⟩ := List.mem_filterMap.1 mem
  obtain ⟨name, named, rfl⟩ := Option.map_eq_some_iff.1 same
  exact confined_generic (each generic inside) named

/-- A member on the right of related lists is related to one on the left. -/
theorem exists_of_forall₂ {α β : Type} {R : α → β → Prop} {l : List α} {m : List β}
    (h : List.Forall₂ R l m) {b : β} (mem : b ∈ m) : ∃ a ∈ l, R a b := by
  obtain ⟨position, here⟩ := List.getElem?_of_mem mem
  obtain ⟨a, there, related⟩ := forall₂_getElem? h.flip here
  exact ⟨a, List.mem_of_getElem? there, related⟩

/-- A type name without arguments mentions what it refers to. -/
theorem Mentions.refers {id : NodeId} {name : String} {generic : Node}
    (mentions : Mentions environment (.mk id (.typeName name [])) generic) :
    environment.typeDeclaration? id = some generic := by
  obtain ⟨inner, mem, refers, -⟩ := mentions
  have alone : (Node.mk id (.typeName name [])).preorder = [.mk id (.typeName name [])] := by
    rw [Node.preorder_eq]
    rfl
  rw [alone, List.mem_singleton] at mem
  subst mem
  exact refers

/-- An annotation denotes a type with generic parameters that it mentions. -/
theorem confined_of_denotes {ascription : Node} {type : StaticType}
    (denotes : Denotes environment ascription type) :
    Confined (Mentions environment ascription) type := by
  induction ascription using Node.children_induction generalizing type with
  | step node ih =>
    have below {child : Node} {type : StaticType} (mem : child ∈ node.children)
        (denotes : Denotes environment child type) : Confined (Mentions environment node) type :=
      (ih child mem denotes).mono fun _ ⟨inner, inside, refers⟩ =>
        ⟨inner, Node.mem_preorder_of_mem_children mem inside, refers⟩
    cases denotes with
    | generic refers kind =>
      refine confined_generic ⟨_, Node.self_mem_preorder _, refers, _, kind⟩ ?_
      rw [Node.declaredName?, kind, Kind.declaredName?]
    | declared refers kind denoted =>
      refine confined_constant fun parameter mem => ?_
      obtain ⟨argument, inside, denotes⟩ := exists_of_forall₂ denoted mem
      exact below inside denotes
    | undeclared refers denoted =>
      refine confined_constant fun parameter mem => ?_
      obtain ⟨argument, inside, denotes⟩ := exists_of_forall₂ denoted mem
      exact below inside denotes
    | function denoted denotedResult =>
      refine confined_function (fun parameter mem => ?_)
        (below (List.mem_append_right _ (List.mem_singleton_self _)) denotedResult)
      obtain ⟨type, typed, rfl⟩ := List.mem_map.1 mem
      obtain ⟨argument, inside, denotes⟩ := exists_of_forall₂ denoted typed
      exact below (List.mem_append_left _ inside) denotes
    | nothing silent => exact confined_variable _

end Types

/-- The types of declarations have generic parameters that the declarations involve. -/
def Involved (environment : Environment) (root : Node)
    (declarations : Std.TreeMap NodeId StaticType) : Prop :=
  ∀ node ∈ root.preorder, ∀ type, declarations[node.id]? = some type →
    Confined (Involves environment node) type

section Steps

variable {environment : Environment} {root : Node} {allowed : Node → Prop}

variable (environment root) in
/-- What the state knows of declarations has generic parameters that they involve. -/
def KnowsInvolved (state : State) : Prop :=
  Involved environment root state.typing.declarations

theorem brings_fresh : Brings (KnowsInvolved environment root) fresh (Confined allowed) :=
  keeps_fresh.brings fun _ => confined_variable _

/-- An annotation brings generic parameters that it mentions. -/
theorem brings_annotationType (ascription : Node) :
    Brings (KnowsInvolved environment root) (annotationType environment ascription)
      (Confined (Mentions environment ascription)) :=
  (keeps_annotationType environment ascription).brings fun state => by
    have written : Extends environment ascription [] [] state _ ∧
        Denotes environment ascription (annotationType environment ascription state).1 :=
      annotationType_inv rfl
    exact confined_of_denotes written.2

end Steps

section Declarations

variable {environment : Environment} {root : Node}
  (built : NodeIndex.build root = .ok environment.index) (distinct : root.Distinct)

/-- A declaration is written with generic parameters that it involves. -/
theorem brings_writtenType {steps : Nat} {node : Node}
    (each : ∀ part ∈ typedParts environment.index node, Brings (KnowsInvolved environment root)
      (declarationType environment steps part) (Confined (Involves environment part))) :
    Brings (KnowsInvolved environment root) (writtenType environment steps node)
      (Confined (Involves environment node)) := by
  obtain ⟨id, kind⟩ := node
  have written {ascription : Node} (mem : ascription ∈ annotations (.mk id kind)) :
      Brings (KnowsInvolved environment root) (annotationType environment ascription)
        (Confined (Involves environment (.mk id kind))) :=
    (brings_annotationType ascription).imp fun _ confined => confined.mono fun _ => .mentioned mem
  have part {part : Node} (mem : part ∈ typedParts environment.index (.mk id kind)) :
      Brings (KnowsInvolved environment root) (declarationType environment steps part)
        (Confined (Involves environment (.mk id kind))) :=
    (each part mem).imp fun _ confined => confined.mono fun _ => .part mem
  have parts : Brings (KnowsInvolved environment root)
      (labeledTypes environment steps (typedParts environment.index (.mk id kind)))
      fun slots => ∀ slot ∈ slots, Confined (Involves environment (.mk id kind)) slot.2 :=
    brings_mapM fun _ mem => (part mem).bind fun _ confined => brings_pure confined
  cases kind with
  | functionDecl name generics parameters result body =>
    refine parts.bind fun received confined => ?_
    exact (written (List.mem_singleton_self _)).bind fun returned last =>
      brings_pure (confined_function confined last)
  | recordDecl name generics declarations =>
    exact parts.bind fun fields confined => brings_pure (confined_function confined
      (confined_genericTypes name fun _ mem => .listed mem))
  | enumerationDecl name generics cases =>
    exact brings_pure (confined_genericTypes name fun _ mem => .listed mem)
  | enumerationCase name values =>
    have enumeration : Brings (KnowsInvolved environment root)
        (((environment.index.parent? id).map (declarationType environment steps)).getD fresh)
        (Confined (Involves environment (.mk id (.enumerationCase name values)))) := by
      cases found : environment.index.parent? id with
      | none => exact brings_fresh
      | some parent => exact part (Option.mem_toList.2 found)
    have slots : Brings (KnowsInvolved environment root) (values.mapM fun value => do
        return ((none : Option String), ← annotationType environment value))
        fun slots => ∀ slot ∈ slots,
          Confined (Involves environment (.mk id (.enumerationCase name values))) slot.2 :=
      brings_mapM fun value mem => (written mem).bind fun type confined => brings_pure confined
    exact enumeration.bind fun around last => slots.bind fun received confined =>
      brings_pure (confined_function confined last)
  | parameter => exact written (List.mem_singleton_self _)
  | variableDecl name ascription? =>
    cases ascription? with
    | some ascription => exact written (List.mem_singleton_self _)
    | none => exact brings_fresh
  | genericParameter name => exact brings_pure (confined_generic (.itself rfl) rfl)
  | _ => exact brings_fresh

include built distinct

/-- Working out the type of a declaration brings in only generic parameters that it involves. -/
theorem involved_declarationType (steps : Nat) {node : Node} (inside : node ∈ root.preorder) :
    Brings (KnowsInvolved environment root) (declarationType environment steps node)
      (Confined (Involves environment node)) := by
  -- By induction on the steps and not on the tree: a case leads up to its enumeration.
  induction steps generalizing node with
  | zero =>
    rw [declarationType]
    intro state kept
    exact brings_fresh _ (show KnowsInvolved environment root { state with selfContained := true }
      from kept)
  | succ steps ih =>
    intro state kept
    cases ran : declarationType environment (steps + 1) node state with
    | mk type after =>
      rcases declarationType_cases ran with ⟨stored, rfl⟩ | ⟨middle, written, set⟩
      · exact ⟨kept, kept node inside type stored⟩
      · have brought := brings_writtenType (fun part mem =>
          ih (mem_preorder_of_mem_typedParts built inside mem)) state kept
        rw [written] at brought
        have keeps : Keeps (Involved environment root) (setDeclarationType node.id type) :=
          keeps_setDeclarationType_of distinct inside brought.2
        exact ⟨keeps.inv brought.1 set, brought.2⟩

end Declarations

end Inference

open Inference

/-- After inference, the types of declarations have generic parameters that the declarations
involve. -/
theorem Typing.involved_infer {root : Node} {index : NodeIndex} (distinct : root.Distinct)
    (built : NodeIndex.build root = .ok index) (scope : Scope) (supply : VariableSupply) :
    Involved { scope, index } root (Typing.infer root scope index supply).declarations := by
  have declares (node : Node) (inside : node ∈ root.preorder) :
      Keeps (Involved { scope, index } root) (typeOfDeclaration { scope, index } node) :=
    fun state kept =>
      (@involved_declarationType { scope, index } root built distinct _ node inside state kept).1
  exact collect_keeps
    (fun state : State => Involved { scope, index } root state.typing.declarations)
    (enter_descends { scope, index }) (enter_within { scope, index })
    (fun _ (mem : _ ∈ reached none root) state holds =>
      keeps_enter declares (mem_preorder_of_mem_reached mem) state holds)
    (fun _ mem state holds =>
      keeps_leave declares built (mem_preorder_of_mem_reached mem) state holds)
    (fun _ _ _ found => by cases found)

/-- A reference to another declaration than a function, a record or an enumeration case has the type
of the declaration. -/
theorem Typing.plain_infer {root : Node} {index : NodeIndex} (distinct : root.Distinct)
    (built : NodeIndex.build root = .ok index) (scope : Scope) (supply : VariableSupply)
    {reference declaration : Node} (isReference : IsReference reference)
    (refers : Environment.declaration? { scope, index } reference.id = some declaration)
    (plain : isPolymorphic declaration = false) {earlier later : List Moment}
    (split : moments root = earlier ++ .leaving reference :: later) :
    let typing := Typing.infer root scope index supply
    ∃ type, typing.declarations[declaration.id]? = some type ∧
      typing.nodes[reference.id]? = some type := by
  intro typing
  let environment : Environment := { scope, index }
  let before := environment.run earlier (State.initial supply)
  obtain ⟨own, middle, found, given⟩ :=
    @leave_reference environment reference isReference before _ _ rfl
  obtain ⟨_, _, got⟩ := Option.bind_eq_some_iff.1 refers
  have declares : middle.typing.declarations[declaration.id]? = some own := by
    unfold referenceType at found
    rw [refers] at found
    obtain ⟨type, last, worked, found⟩ := bind_inv found
    rw [plain, Bool.false_and, if_neg Bool.false_ne_true] at found
    cases found
    have declared := Typing.declared_run scope supply distinct built split
    have inv : Extends environment root [] [] before middle ∧ _ := typeOfDeclaration_inv built
      distinct (NodeIndex.mem_of_get? built got).1 declared worked
    exact inv.2.1
  have grows := Typing.grows_infer scope supply distinct built split
  have whole : typing = (environment.run (moments root) (State.initial supply)).typing :=
    Typing.infer_eq_run scope supply root index
  rw [whole]
  refine ⟨own, grows.declarations _ _ ?_, grows.nodes _ _ given.typed⟩
  exact (congrArg (fun table => table[declaration.id]?) given.declarations).trans declares

/-- Solving never makes generic parameters of different names one type. -/
theorem Typing.same_generic_iff (typing : Typing) (environment : Environment)
    (first second : String) :
    (typing.solvedJudgment environment).same (.generic first) (.generic second) ↔
      first = second := by
  simp only [solvedJudgment, StaticType.Agrees, Substitution.apply, StaticType.mapLeaves,
    StaticType.unlabeled, StaticType.generic.injEq]

namespace Unifier

/-- Two generic parameters are held to be one type exactly if they have one name, whatever is
bound. -/
theorem failure?_generic (unifier : Unifier) (first second : String) (origin : NodeId) :
    unifier.failure? { head := .generic first, tail := .generic second, origin } =
      if first = second then none
      else some (.mismatch (.generic first) (.generic second)) := by
  have resolved (name : String) :
      unifier.substitution.resolveAll (.generic name) = .generic name := by
    refine Substitution.Settled.resolveAll_eq fun other mem => ?_
    rw [StaticType.freeVariables] at mem
    cases mem
  rw [failure?, Unifier.pending, resolved, resolved, Substitution.extend_eq, Equations.reduce_cons]
  by_cases same : first = second
  · rw [if_pos same, same, Equations.demand_self, Equations.reduce]
  · have demanded : Equations.demand (.generic first) (.generic second) =
        .impossible (.mismatch (.generic first) (.generic second)) := by
      unfold Equations.demand
      rw [if_neg fun equal => same (StaticType.generic.inj equal)]
    rw [if_neg same, demanded]

end Unifier

namespace Compilation

/-- The type of a declaration has generic parameters that the declaration involves, by name.  A
reference to a variable or a parameter keeps them all.  A reference to a function, a record or an
enumeration case has an instance of the type; if the declaration involves none but its own generic
parameters, only these are replaced.  Two generic parameters are one type exactly if they have one
name, whatever is bound. -/
theorem generics_instantiated {options : Options} {root : Node} {focus : Option NodeId}
    {before after : Reports} {compilation : Compilation}
    (compiled : ofTree options root focus before = (.ok compilation, after)) :
    (∀ reference ∈ compilation.root.preorder, ∀ declaration own,
      compilation.environment.declaration? reference.id = some declaration →
      compilation.typing.nodes[reference.id]? = some own →
        ∃ type, compilation.typing.declarations[declaration.id]? = some type ∧
          Confined (Involves compilation.environment declaration) type ∧
          (isPolymorphic declaration = false → own = type) ∧
          (isPolymorphic declaration = true → (∃ names, type.Instance names own) ∧
            ((∀ generic, Involves compilation.environment declaration generic →
                generic ∈ ownGenerics compilation.index declaration) →
              Confined (· ∈ ownGenerics compilation.index declaration) type))) ∧
    ∀ first second : String,
      ((compilation.typing.solvedJudgment compilation.environment).same
        (.generic first) (.generic second) ↔ first = second) ∧
      ∀ (unifier : Unifier) (origin : NodeId),
        unifier.failure? { head := .generic first, tail := .generic second, origin } =
          if first = second then none
          else some (.mismatch (.generic first) (.generic second)) := by
  have distinct := (consistent_of_ofTree compiled).distinct
  obtain ⟨-, built, supply, inferred⟩ := typing_of_ofTree compiled
  refine ⟨fun reference inside declaration own refers typed => ?_, fun first second =>
    ⟨compilation.typing.same_generic_iff _ first second, fun unifier origin =>
      unifier.failure?_generic first second origin⟩⟩
  have isReference := isReference_of_declaration compiled inside refers
  have declared : declaration ∈ compilation.root.preorder := by
    obtain ⟨_, _, got⟩ := Option.bind_eq_some_iff.1 refers
    exact (NodeIndex.mem_of_get? built got).1
  rw [inferred] at typed ⊢
  obtain ⟨place, reach, rfl⟩ := Typing.reached_of_typed compilation.scope supply distinct built
    inside typed
  obtain ⟨earlier, later, split⟩ := exists_split reach
  have involved {type : StaticType} := Typing.involved_infer distinct built compilation.scope supply
    declaration declared type
  cases polymorphic : isPolymorphic declaration with
  | false =>
    obtain ⟨type, stored, given⟩ := Typing.plain_infer distinct built compilation.scope supply
      isReference refers polymorphic split
    exact ⟨type, stored, involved stored, fun _ => Option.some.inj (typed.symm.trans given), nofun⟩
  | true =>
    obtain ⟨type, given, names, ⟨stored, -⟩, known, instance_, -⟩ := Typing.instance_infer
      compilation.scope supply distinct built isReference refers polymorphic split
    obtain rfl : own = given := Option.some.inj (typed.symm.trans known)
    exact ⟨type, stored, involved stored, nofun, fun _ =>
      ⟨⟨names, instance_⟩, fun only => (involved stored).mono only⟩⟩

/-- The function that is named twice involves no generic parameter but its own. -/
theorem mem_ownGenerics_identityFunction {environment : Environment}
    (first : environment.typeDeclaration? 4 = some (.mk 2 (.genericParameter "T")))
    (second : environment.typeDeclaration? 5 = some (.mk 2 (.genericParameter "T")))
    {generic : Node} (involves : Involves environment identityFunction generic) :
    generic ∈ ownGenerics environment.index identityFunction := by
  have own {found : Option Node} (refers : found = some (.mk 2 (.genericParameter "T")))
      (mentioned : found = some generic) :
      generic ∈ ownGenerics environment.index identityFunction := by
    cases refers.symm.trans mentioned
    exact List.mem_singleton_self _
  cases involves with
  | mentioned annotates mentions =>
    cases List.mem_singleton.1 annotates
    exact own second mentions.refers
  | listed mem => exact mem
  | part mem involves =>
    cases List.mem_singleton.1 mem
    cases involves with
    | mentioned annotates mentions =>
      cases List.mem_singleton.1 annotates
      exact own first mentions.refers
    | listed mem => cases mem
    | part mem => cases mem
    | itself kind => cases kind
  | itself kind => cases kind

/-- The function involves its own generic parameter only, and where it is named first, this is
replaced by a variable. -/
theorem generics_instantiated_identityTwice :
    ∃ compilation after, ofTree {} identityTwice none {} = (.ok compilation, after) ∧
      ∃ type own names, compilation.typing.declarations[1]? = some type ∧
        compilation.typing.nodes[9]? = some own ∧ type.Instance names own ∧
        Confined (· ∈ ownGenerics compilation.index identityFunction) type := by
  have checked : ((ofTree {} identityTwice none {}).1.toOption.bind fun compilation =>
      some ((compilation.environment.declaration? 9).map Node.id,
        (compilation.environment.typeDeclaration? 4).map Node.id,
        (compilation.environment.typeDeclaration? 5).map Node.id,
        compilation.typing.nodes[9]?.isSome)) = some (some 1, some 2, some 2, true) := by
    decide +kernel
  obtain ⟨compilation, compiled, holds⟩ := compiled_of_toOption checked
  simp only [Option.some.injEq, Prod.mk.injEq] at holds
  obtain ⟨named, inParameter, inResult, typed⟩ := holds
  have function : identityFunction ∈ identityTwice.preorder :=
    Node.mem_preorder_of_mem_children List.mem_cons_self identityFunction.self_mem_preorder
  have parameter : Node.mk 2 (.genericParameter "T") ∈ identityTwice.preorder :=
    Node.mem_preorder_trans function
      (Node.mem_preorder_of_mem_children List.mem_cons_self (Node.self_mem_preorder _))
  have first : compilation.environment.typeDeclaration? 4 = some (.mk 2 (.genericParameter "T")) :=
    found_of_id compiled parameter inParameter
  have second : compilation.environment.typeDeclaration? 5 = some (.mk 2 (.genericParameter "T")) :=
    found_of_id compiled parameter inResult
  have refers : compilation.environment.declaration? 9 = some identityFunction :=
    found_of_id compiled function named
  have statement : Node.mk 8 (.expressionStatement (.mk 9 (.identifier "identity"))) ∈
      identityTwice.preorder :=
    Node.mem_preorder_of_mem_children (List.mem_cons_of_mem _ List.mem_cons_self)
      (Node.self_mem_preorder _)
  have inside : Node.mk 9 (.identifier "identity") ∈ compilation.root.preorder := by
    rw [(typing_of_ofTree compiled).1]
    exact Node.mem_preorder_trans statement
      (Node.mem_preorder_of_mem_children List.mem_cons_self (Node.self_mem_preorder _))
  obtain ⟨own, known⟩ := Option.isSome_iff_exists.1 typed
  obtain ⟨type, stored, -, -, instantiated⟩ :=
    (generics_instantiated compiled).1 _ inside identityFunction own refers known
  obtain ⟨⟨names, instance_⟩, confined⟩ := instantiated rfl
  exact ⟨compilation, _, compiled, type, own, names, stored, known, instance_,
    confined fun _ => mem_ownGenerics_identityFunction first second⟩

/-- A function with a generic parameter and a function inside of it that gives back what has the
outer generic parameter as its type. -/
def outerGeneric : Node :=
  .mk 0 (.program
    [.mk 1 (.functionDecl "outer" [.mk 2 (.genericParameter "T")]
      [.mk 3 (.parameter "x" (.mk 4 (.typeName "T" [])) none)] (.mk 5 (.typeName "Boolean" []))
      [.mk 6 (.functionDecl "inner" [] [] (.mk 7 (.typeName "T" []))
          [.mk 8 (.returnStatement (some (.mk 9 (.identifier "x"))))]),
        .mk 10 (.returnStatement (some (.mk 11 (.call (.mk 12 (.identifier "inner")) []))))])])

/-- The generic parameter of the outer function is replaced where the inner one is called.  So the
program is accepted, although the outer function gives back its parameter as a boolean. -/
theorem outerGeneric_instantiated :
    outerGeneric.identities.Nodup ∧
    ((ofTree {} outerGeneric none {}).1.toOption.map fun compilation =>
      (compilation.scope.resolveType 7, compilation.scope.resolve 12)) = some (some 2, some 6) ∧
    ((ofTree {} outerGeneric none {}).1.toOption.map fun compilation =>
      (compilation.typing.declarations[6]?, compilation.typing.nodes[12]?,
        compilation.unifier.errors)) =
      some (some (.function [] (.generic "T")), some (.function [] (.variable "?0")), #[]) := by
  decide +kernel

/-- A function with a generic parameter, and a function inside of it with a generic parameter of the
same name. -/
def sameName : Node :=
  .mk 0 (.program
    [.mk 1 (.functionDecl "outer" [.mk 2 (.genericParameter "T")]
      [.mk 3 (.parameter "x" (.mk 4 (.typeName "T" [])) none)] (.mk 5 (.typeName "T" []))
      [.mk 6 (.functionDecl "inner" [.mk 7 (.genericParameter "T")] [] (.mk 8 (.typeName "T" []))
          [.mk 9 (.returnStatement (some (.mk 10 (.identifier "x"))))]),
        .mk 11 (.returnStatement (some (.mk 12 (.identifier "x"))))])])

/-- What has the generic parameter of the outer function as its type is given back where that of the
inner one is expected. -/
theorem sameName_accepted :
    ((ofTree {} sameName none {}).1.toOption.map fun compilation =>
      (compilation.scope.resolveType 4, compilation.scope.resolveType 8,
        compilation.unifier.errors)) = some (some 2, some 7, #[]) := by
  decide +kernel

end Compilation

end DeclLang
