import DeclLang.Proofs.SuppliedVariables

/-!
# Instances of declared types

**Input.**  A tree with distinct identities.

**Rule.**  A reference to a function, a record or an enumeration case has an instance of the declared
type: every generic parameter is replaced by one variable throughout, and the variables at a
reference belong to it alone.

**Results.**  `Typing.infer_instantiates`: every reference that inference comes to has such a type.
Its variables are new at the moment when the reference is left, and afterwards they occur neither in
the type of a declaration nor in the type of another reference.
-/

namespace DeclLang

namespace StaticType

/-- The type with variables of the given names in place of its generic parameters, one for each in
the order of their first occurrence. -/
def specialize (type : StaticType) (names : List String) : StaticType :=
  type.replaceGenerics fun generic => (type.genericNames.zip (names.map .variable)).lookup generic

/-- The type is a declared type in which every generic parameter is replaced by a variable of its
own. -/
structure Instance (declared : StaticType) (names : List String) (own : StaticType) : Prop where
  length : names.length = declared.genericNames.length
  nodup : names.Nodup
  replaced : own = declared.specialize names
  occur : ∀ name ∈ names, name ∈ own.freeVariables
  closed : own.generics = []

/-- A type whose leaves are replaced by types without generic parameters has none. -/
theorem generics_mapLeaves {f g : String → StaticType} {type : StaticType}
    (kept : ∀ name, (f name).generics = [])
    (replaced : ∀ name ∈ type.generics, (g name).generics = []) :
    (type.mapLeaves f g).generics = [] := by
  induction type using parts_induction with
  | onVariable name =>
    rw [mapLeaves]
    exact kept name
  | onGeneric name =>
    rw [mapLeaves]
    exact replaced name (by rw [generics]; exact List.mem_singleton_self _)
  | onConstant name parameters ih =>
    rw [generics] at replaced
    simp only [mapLeaves, generics, List.flatMap_map, List.flatMap_eq_nil_iff]
    exact fun part mem => ih part mem fun name inside =>
      replaced name (List.mem_flatMap.2 ⟨part, mem, inside⟩)
  | onFunction arguments result ihArguments ihResult =>
    rw [generics] at replaced
    simp only [mapLeaves, generics, List.flatMap_map, List.append_eq_nil_iff,
      List.flatMap_eq_nil_iff]
    refine ⟨fun part mem => ihArguments part mem fun name inside => replaced name ?_,
      ihResult fun name inside => replaced name (List.mem_append_right _ inside)⟩
    exact List.mem_append_left _ (List.mem_flatMap.2 ⟨part, mem, inside⟩)

/-- Among different keys, each leads to the value at its place. -/
theorem lookup_zip {α : Type} {keys : List String} {values : List α} (distinct : keys.Nodup)
    {place : Nat} {key : String} {value : α} (here : keys[place]? = some key)
    (there : values[place]? = some value) : (keys.zip values).lookup key = some value := by
  induction keys generalizing values place with
  | nil => cases here
  | cons first keys ih =>
    cases values with
    | nil => cases there
    | cons other values =>
      rw [List.zip_cons_cons, List.lookup_cons]
      cases place with
      | zero =>
        cases here
        cases there
        rw [beq_self_eq_true]
      | succ place =>
        rw [List.nodup_cons] at distinct
        have different : (key == first) = false :=
          beq_eq_false_iff_ne.2 fun same => distinct.1 (same ▸ List.mem_of_getElem? here)
        rw [different]
        exact ih distinct.2 here there

variable {type : StaticType} {names : List String}

/-- The variable at a place stands for the generic parameter at that place. -/
theorem specialize_at (length : names.length = type.genericNames.length) {place : Nat}
    {generic : String} (here : type.genericNames[place]? = some generic) :
    ∃ name, names[place]? = some name ∧
      (type.genericNames.zip (names.map StaticType.variable)).lookup generic =
        some (.variable name) := by
  have bound : place < names.length := length ▸ (List.getElem?_eq_some_iff.1 here).1
  refine ⟨names[place], List.getElem?_eq_getElem bound,
    lookup_zip (Equations.nodup_eraseDups _) here ?_⟩
  rw [List.getElem?_map, List.getElem?_eq_getElem bound, Option.map_some]

/-- As many different variables as there are generic parameters make an instance. -/
theorem instance_specialize (length : names.length = type.genericNames.length)
    (nodup : names.Nodup) : type.Instance names (type.specialize names) where
  length := length
  nodup := nodup
  replaced := rfl
  occur name mem := by
    obtain ⟨place, bound, rfl⟩ := List.getElem_of_mem mem
    have inside := List.getElem_mem (length ▸ bound : place < type.genericNames.length)
    obtain ⟨name, own, stands⟩ := specialize_at length (List.getElem?_eq_getElem (length ▸ bound))
    refine type.mem_freeVariables_leaves.2 (.inr ⟨_, List.mem_eraseDups.1 inside, ?_⟩)
    simp only [stands, Option.getD_some, freeVariables, List.mem_singleton]
    exact Option.some.inj ((List.getElem?_eq_getElem bound).symm.trans own)
  closed := by
    refine generics_mapLeaves (fun name => by rw [generics]) fun generic mem => ?_
    obtain ⟨place, here⟩ := List.getElem?_of_mem (List.mem_eraseDups.2 mem)
    obtain ⟨name, -, stands⟩ := specialize_at length here
    simp only [stands, Option.getD_some, generics]

/-- A type without generic parameters is its own instance. -/
theorem instance_self (closed : type.generics = []) : type.Instance [] type := by
  have none : type.genericNames = [] := by rw [genericNames, closed, List.eraseDups_nil]
  have same : type.specialize [] = type := by
    refine Eq.trans (mapLeaves_congr (fun _ _ => rfl) fun name mem => ?_) type.mapLeaves_leaves
    rw [closed] at mem
    cases mem
  have own : type.Instance [] (type.specialize []) := instance_specialize (by rw [none]) .nil
  rwa [same] at own

end StaticType

namespace Inference

/-- Variables of the given names occur in none of the types that are known so far. -/
structure Lacks (typing : Typing) (names : List String) : Prop where
  constraints : ∀ constraint ∈ typing.constraints,
    names.Disjoint constraint.head.freeVariables ∧ names.Disjoint constraint.tail.freeVariables
  nodes : ∀ (id : NodeId) (type : StaticType), typing.nodes[id]? = some type →
    names.Disjoint type.freeVariables
  declarations : ∀ (id : NodeId) (type : StaticType), typing.declarations[id]? = some type →
    names.Disjoint type.freeVariables

/-- A supply never supplies a type with variables that it has not given yet. -/
theorem disjoint_of_supplies {supply : VariableSupply} {names aside : List String}
    (fresh : ∀ name ∈ names, ¬supply.Gave name) {type : StaticType}
    (supplied : supply.Supplies aside type) : names.Disjoint type.freeVariables :=
  fun name here there => fresh name here (supplied name there).1

theorem disjoint_of_aside {supply : VariableSupply} {names : List String} {type : StaticType}
    (supplied : supply.Supplies names type) : names.Disjoint type.freeVariables :=
  fun name here there => (supplied name there).2 here

/-- A state lacks the variables that its supply has not given yet. -/
theorem State.Supplied.lacks {state : State} {aside names : List String}
    (supplied : state.Supplied aside) (fresh : ∀ name ∈ names, ¬state.typing.supply.Gave name) :
    Lacks state.typing names where
  constraints constraint mem :=
    ⟨disjoint_of_supplies fresh (supplied.constraints constraint mem).1,
      disjoint_of_supplies fresh (supplied.constraints constraint mem).2⟩
  nodes id type found := disjoint_of_supplies fresh (supplied.nodes id type found)
  declarations id type found := disjoint_of_supplies fresh (supplied.declarations id type found)

/-- Several variables are taken from the supply in one go. -/
theorem freshFor_eq (names : List String) (state : State) :
    freshFor names state =
      (names.zip ((state.typing.supply.takeNames names.length).1.map .variable),
        { state with typing := { state.typing with
            supply := (state.typing.supply.takeNames names.length).2 } }) := by
  induction names generalizing state with
  | nil => rfl
  | cons name names ih =>
    cases taken : fresh state with
    | mk type middle =>
      have rest := ih middle
      cases taken
      exact congrArg (fun result : List (String × StaticType) × State =>
        ((name, _) :: result.1, result.2)) rest

/-- Variables that are taken now can be set aside. -/
theorem State.Supplied.takeNames {state : State} (supplied : state.Supplied []) (count : Nat) :
    State.Supplied (state.typing.supply.takeNames count).1
      { state with typing := { state.typing with
          supply := (state.typing.supply.takeNames count).2 } } := by
  have drawn := state.typing.supply.before_takeNames count
  have later := supplied.withSupply drawn
  refine { later with taken := ?_, declarations := ?_ }
  · exact fun _ mem => (VariableSupply.mem_takeNames mem).1
  · intro id type found name mem
    have gave := (supplied.declarations id type found name mem).1
    exact ⟨gave.mono drawn, fun again => (VariableSupply.mem_takeNames again).2 gave⟩

/-- A node is given its type when it is left.  Nothing else becomes known but perhaps a constraint. -/
structure Given (node : Node) (type : StaticType) (before after : State) : Prop where
  typed : after.typing.nodes[node.id]? = some type
  others : ∀ id, id ≠ node.id → after.typing.nodes[id]? = before.typing.nodes[id]?
  declarations : after.typing.declarations = before.typing.declarations
  constraints : ∀ constraint ∈ before.typing.constraints, constraint ∈ after.typing.constraints
  supplied : ∀ aside, before.Supplied aside → before.typing.supply.Supplies [] type →
    after.Supplied aside

theorem given_setNodeType {node : Node} {type : StaticType} {before middle after : State}
    {done : Unit} (declarations : middle.typing.declarations = before.typing.declarations)
    (nodes : middle.typing.nodes = before.typing.nodes)
    (constraints : ∀ constraint ∈ before.typing.constraints,
      constraint ∈ middle.typing.constraints)
    (supplied : ∀ aside, before.Supplied aside → before.typing.supply.Supplies [] type →
      after.Supplied aside)
    (h : setNodeType node.id type middle = (done, after)) : Given node type before after := by
  cases h
  refine ⟨Std.TreeMap.getElem?_insert_self, fun id different => ?_, declarations, constraints,
    supplied⟩
  dsimp only
  rw [nodes, Std.TreeMap.getElem?_insert, if_neg]
  exact fun same => different (Nat.compare_eq_eq.1 same).symm

/-- What is found out about a node when it is left is its type from then on. -/
theorem leave_given {environment : Environment} {node : Node} {type : StaticType}
    {before middle after : State} {done : Unit}
    (found : leftType? environment node before = (some type, middle))
    (h : leave environment node before = (done, after)) : Given node type middle after := by
  obtain ⟨_, _, same, h⟩ := bind_inv h
  cases found.symm.trans same
  have last : _ = after := congrArg Prod.snd h
  have supplied (aside : List String) (supplied : middle.Supplied aside)
      (drawn : middle.typing.supply.Supplies [] type) : after.Supplied aside :=
    last ▸ (draws_given node drawn middle supplied (.refl _)).1
  obtain ⟨_, _, got, h⟩ := bind_inv h
  cases got
  split at h
  · obtain ⟨_, _, erased, h⟩ := bind_inv h
    cases erased
    obtain ⟨_, _, demanded, h⟩ := bind_inv h
    cases demanded
    refine given_setNodeType ?_ ?_ ?_ supplied h
    · rfl
    · rfl
    · exact fun _ => Array.mem_push_of_mem _
  · exact given_setNodeType rfl rfl (fun _ mem => mem) supplied h

/-- When a reference is left, it is given its type. -/
theorem leave_reference {environment : Environment} {reference : Node}
    (isReference : IsReference reference) {before after : State} {done : Unit}
    (h : leave environment reference before = (done, after)) :
    ∃ own middle, referenceType environment reference.id before = (own, middle) ∧
      Given reference own middle after := by
  have left : leftType? environment reference =
      (do return some (← referenceType environment reference.id)) := by
    obtain ⟨id, kind⟩ := reference
    rcases isReference with ⟨name, rfl⟩ | ⟨object, name, rfl⟩
    · rfl
    · rfl
  refine ⟨_, _, rfl, leave_given ?_ h⟩
  rw [left]
  rfl

section Reference

variable {environment : Environment} {root : Node} {declaration : Node} {before after : State}
  (built : NodeIndex.build root = .ok environment.index) (distinct : root.Distinct)
  (polymorphic : isPolymorphic declaration = true)
  (declared : Declared environment root before) (supplied : before.Supplied [])

include built distinct polymorphic declared supplied

/-- The type of a reference is an instance of the declared type, with variables that were never
given before. -/
theorem referenceType_instance {id : NodeId}
    (refers : environment.declaration? id = some declaration) {own : StaticType}
    (h : referenceType environment id before = (own, after)) :
    ∃ type names, (judge environment after).Declares declaration type ∧
      type.Instance names own ∧ after.Supplied names ∧
      ∀ name ∈ names, ¬before.typing.supply.Gave name := by
  unfold referenceType at h
  rw [refers] at h
  obtain ⟨type, middle, found, h⟩ := bind_inv h
  obtain ⟨_, _, got⟩ := Option.bind_eq_some_iff.1 refers
  have first : Extends environment root [] [] before middle ∧ _ := typeOfDeclaration_inv built
    distinct (NodeIndex.mem_of_get? built got).1 declared found
  obtain ⟨suppliedNext, drawn, -⟩ :=
    draws_typeOfDeclaration environment declaration before supplied (.refl _)
  rw [found] at suppliedNext drawn
  split at h
  · obtain ⟨replacements, last, taken, h⟩ := bind_inv h
    rw [freshFor_eq] at taken
    cases taken
    cases h
    refine ⟨type, _, first.2, StaticType.instance_specialize ?_ ?_, suppliedNext.takeNames _, ?_⟩
    · exact VariableSupply.length_takeNames _ _
    · exact VariableSupply.nodup_takeNames _ _
    · exact fun name mem gave => (VariableSupply.mem_takeNames mem).2 (gave.mono drawn)
  · rename_i closed
    cases h
    refine ⟨own, [], first.2, StaticType.instance_self ?_, suppliedNext, List.forall_mem_nil _⟩
    simpa [polymorphic, StaticType.hasGenerics] using closed

/-- When a reference is left, it is given an instance of the declared type. -/
theorem leave_instance {reference : Node} (isReference : IsReference reference)
    (refers : environment.declaration? reference.id = some declaration) {done : Unit}
    (h : leave environment reference before = (done, after)) :
    ∃ type own names, (judge environment after).Declares declaration type ∧
      after.typing.nodes[reference.id]? = some own ∧ type.Instance names own ∧
      after.Supplied names ∧ ∀ name ∈ names, ¬before.typing.supply.Gave name := by
  obtain ⟨own, middle, found, given⟩ := leave_reference isReference h
  obtain ⟨type, names, declares, instance_, suppliedNext, fresh⟩ :=
    referenceType_instance built distinct polymorphic declared supplied refers found
  have drawn := draws_referenceType environment reference.id before supplied (.refl _)
  rw [found] at drawn
  refine ⟨type, own, names, ⟨?_, declares.2⟩, given.typed, instance_,
    given.supplied names suppliedNext drawn.2.2.any, fresh⟩
  exact (congrArg (fun table => table[declaration.id]?) given.declarations).trans declares.1

end Reference

end Inference

open Inference

section Infer

variable {root : Node} {index : NodeIndex} (scope : Scope) (supply : VariableSupply)
  (distinct : root.Distinct) (built : NodeIndex.build root = .ok index)

theorem supplied_before (stretch : List Moment) :
    (Environment.run { scope, index } stretch (State.initial supply)).Supplied [] :=
  supplied_run stretch (.start supply)

include distinct built

/-- The type that a reference is given when it is left is its type after inference. -/
theorem Typing.reference_infer {reference : Node} (isReference : IsReference reference)
    {earlier later : List Moment} (split : moments root = earlier ++ .leaving reference :: later) :
    let environment : Environment := { scope, index }
    let before := environment.run earlier (State.initial supply)
    let left := environment.advance before (.leaving reference)
    ∃ own, (referenceType environment reference.id before).1 = own ∧
      left.typing.nodes[reference.id]? = some own ∧
      (Typing.infer root scope index supply).nodes[reference.id]? = some own := by
  intro environment before left
  obtain ⟨own, middle, found, given⟩ :=
    @leave_reference environment reference isReference before left _ rfl
  refine ⟨own, congrArg Prod.fst found, given.typed, ?_⟩
  rw [Typing.infer_eq_run]
  exact (Typing.grows_infer scope supply distinct built split).nodes _ _ given.typed

/-- Variables that are new when a reference is left do not occur in the type of another reference:
those that were left before had their types already, and later ones are given other variables. -/
theorem Typing.disjoint_elsewhere {reference other : Node} {earlier later : List Moment}
    (split : moments root = earlier ++ .leaving reference :: later) {names : List String}
    (fresh : ∀ name ∈ names,
      ¬(Environment.run { scope, index } earlier (State.initial supply)).typing.supply.Gave name)
    (aside : (Environment.advance { scope, index } (Environment.run { scope, index } earlier
      (State.initial supply)) (.leaving reference)).Supplied names)
    (inside : other ∈ root.preorder) (isReference : IsReference other)
    (different : other.id ≠ reference.id) {type : StaticType}
    (typed : (Typing.infer root scope index supply).nodes[other.id]? = some type) :
    names.Disjoint type.freeVariables := by
  obtain ⟨place, reach, same⟩ := Typing.reached_of_typed scope supply distinct built inside typed
  have mem : Moment.leaving other ∈ moments root := mem_moments_iff.2 ⟨place, reach, same⟩
  -- The other reference is left before this one, is this one, or is left after it.
  rw [split, List.mem_append, List.mem_cons] at mem
  rcases mem with mem | equal | mem
  · obtain ⟨front, back, cut⟩ := List.append_of_mem mem
    have splitOther : moments root =
        front ++ .leaving other :: (back ++ .leaving reference :: later) := by
      rw [split, cut, List.append_assoc, List.cons_append]
    obtain ⟨own, -, known, final⟩ :=
      Typing.reference_infer scope supply distinct built isReference splitOther
    obtain rfl : own = type := Option.some.inj (final.symm.trans typed)
    have between : moments root =
        (front ++ [.leaving other]) ++ (back ++ .leaving reference :: later) := by
      rw [splitOther, List.append_assoc]
      rfl
    have grows := Typing.grows_run scope supply distinct built between
    simp only [run_append, run_cons, run_nil] at grows
    have before : State.Supplied [] (Environment.run { scope, index } earlier _) :=
      supplied_before scope supply earlier
    refine disjoint_of_supplies fresh (before.nodes other.id own ?_)
    rw [cut, run_append, run_cons]
    exact grows.nodes _ _ known
  · cases equal
    exact absurd rfl different
  · obtain ⟨front, back, cut⟩ := List.append_of_mem mem
    have splitOther : moments root =
        (earlier ++ .leaving reference :: front) ++ .leaving other :: back := by
      rw [split, cut, List.append_assoc]
      rfl
    obtain ⟨own, found, -, final⟩ :=
      Typing.reference_infer scope supply distinct built isReference splitOther
    obtain rfl : own = type := Option.some.inj (final.symm.trans typed)
    rw [run_append, run_cons] at found
    have before : State.Supplied names (Environment.run { scope, index } front _) :=
      supplied_run front aside
    have drawn := draws_referenceType { scope, index } other.id _ before (.refl _)
    rw [← found]
    exact disjoint_of_aside drawn.2.2

/-- A reference to a function, a record or an enumeration case has an instance of the declared type.
Its variables are new when it is left, and can be set aside from then on. -/
theorem Typing.instance_infer {reference declaration : Node} (isReference : IsReference reference)
    (refers : Environment.declaration? { scope, index } reference.id = some declaration)
    (polymorphic : isPolymorphic declaration = true) {earlier later : List Moment}
    (split : moments root = earlier ++ .leaving reference :: later) :
    let environment : Environment := { scope, index }
    let typing := Typing.infer root scope index supply
    let before := environment.run earlier (State.initial supply)
    ∃ type own names,
      (typing.declarations[declaration.id]? = some type ∧
        DeclaredAs environment declaration type) ∧
      typing.nodes[reference.id]? = some own ∧ type.Instance names own ∧
      (∀ name ∈ names, ¬before.typing.supply.Gave name) ∧
      (environment.advance before (.leaving reference)).Supplied names := by
  intro environment typing before
  have declared := Typing.declared_run scope supply distinct built split
  obtain ⟨type, own, names, declares, typed, instance_, aside, fresh⟩ :=
    @leave_instance environment root declaration before _ built distinct polymorphic declared
      (supplied_before scope supply earlier) reference isReference refers _ rfl
  have grows := Typing.grows_infer scope supply distinct built split
  have whole : typing = (environment.run (moments root) (State.initial supply)).typing :=
    Typing.infer_eq_run scope supply root index
  refine ⟨type, own, names, ⟨?_, declares.2⟩, ?_, instance_, fresh, aside⟩
  · rw [whole]
    exact grows.declarations _ _ declares.1
  · rw [whole]
    exact grows.nodes _ _ typed

end Infer

/-- In a tree with distinct identities, every reference that inference comes to, if it refers to a
function, a record or an enumeration case, has an instance of the declared type.  Its variables are
not known when the reference is left, and they stay apart from all types of declarations and of
other references. -/
theorem Typing.infer_instantiates (root : Node) (distinct : root.Distinct) :
    (∃ index, NodeIndex.build root = .ok index) ∧
    ∀ index, NodeIndex.build root = .ok index → ∀ (scope : Scope) (supply : VariableSupply),
      let environment : Environment := { scope, index }
      let typing := Typing.infer root scope index supply
      ∀ place ∈ reached none root, IsReference place.2 → ∀ declaration,
        environment.declaration? place.2.id = some declaration →
        isPolymorphic declaration = true →
        ∃ type own names,
          (typing.declarations[declaration.id]? = some type ∧
            DeclaredAs environment declaration type) ∧
          typing.nodes[place.2.id]? = some own ∧ type.Instance names own ∧
          (∃ earlier later, moments root = earlier ++ .leaving place.2 :: later ∧
            Moment.leaving place.2 ∉ earlier ++ later ∧
            Lacks (environment.run earlier (State.initial supply)).typing names) ∧
          (∀ (id : NodeId) (other : StaticType), typing.declarations[id]? = some other →
            names.Disjoint other.freeVariables) ∧
          ∀ reference ∈ root.preorder, IsReference reference → reference.id ≠ place.2.id →
            ∀ other, typing.nodes[reference.id]? = some other →
              names.Disjoint other.freeVariables := by
  refine ⟨NodeIndex.build_ok distinct, ?_⟩
  intro index built scope supply environment typing place reach isReference declaration refers
    polymorphic
  obtain ⟨earlier, later, split⟩ := exists_split reach
  have once := nodup_moments distinct
  rw [split, List.nodup_middle, List.nodup_cons] at once
  obtain ⟨type, own, names, declared, typed, instance_, fresh, aside⟩ :=
    Typing.instance_infer scope supply distinct built isReference refers polymorphic split
  have before : State.Supplied [] (environment.run earlier _) :=
    supplied_before scope supply earlier
  refine ⟨type, own, names, declared, typed, instance_,
    ⟨earlier, later, split, once.1, before.lacks fresh⟩, fun id other found => ?_,
    fun reference inside isReference' different other found =>
      Typing.disjoint_elsewhere scope supply distinct built split fresh aside inside isReference'
        different found⟩
  have final : (environment.run (moments root) (State.initial supply)).Supplied names := by
    rw [split, run_append, run_cons]
    exact supplied_run later aside
  have found : (Typing.infer root scope index supply).declarations[id]? = some other := found
  rw [Typing.infer_eq_run] at found
  exact disjoint_of_aside (final.declarations id other found)

/-- A generic function that returns its parameter. -/
def identityFunction : Node :=
  .mk 1 (.functionDecl "identity" [.mk 2 (.genericParameter "T")]
    [.mk 3 (.parameter "x" (.mk 4 (.typeName "T" [])) none)] (.mk 5 (.typeName "T" []))
    [.mk 6 (.returnStatement (some (.mk 7 (.identifier "x"))))])

/-- The function, named twice, numbered in preorder. -/
def identityTwice : Node :=
  .mk 0 (.program
    [identityFunction,
      .mk 8 (.expressionStatement (.mk 9 (.identifier "identity"))),
      .mk 10 (.expressionStatement (.mk 11 (.identifier "identity")))])

/-- The names refer to the function, to its parameter and to its generic parameter. -/
def identityTwiceEnvironment : Environment where
  scope :=
    { identifiers := (∅ : Std.TreeMap NodeId NodeId).insert 7 3 |>.insert 9 1 |>.insert 11 1
      typeNames := (∅ : Std.TreeMap NodeId NodeId).insert 4 2 |>.insert 5 2 }
  index := (NodeIndex.build identityTwice).toOption.getD {}

/-- The first name has a variable of its own in place of the generic parameter. -/
theorem Typing.infer_instantiates_identityTwice :
    identityTwice.Distinct ∧
    NodeIndex.build identityTwice = .ok identityTwiceEnvironment.index ∧
    (none, .mk 9 (.identifier "identity")) ∈ reached none identityTwice ∧
    ∃ declaration, identityTwiceEnvironment.declaration? 9 = some declaration ∧
      isPolymorphic declaration = true ∧
      let typing := Typing.infer identityTwice identityTwiceEnvironment.scope
        identityTwiceEnvironment.index {}
      ∃ type own names, typing.declarations[declaration.id]? = some type ∧
        typing.nodes[9]? = some own ∧ type.Instance names own ∧ names.length = 1 ∧
        ∀ reference ∈ identityTwice.preorder, IsReference reference → reference.id ≠ 9 →
          ∀ other, typing.nodes[reference.id]? = some other →
            names.Disjoint other.freeVariables := by
  have distinct : identityTwice.Distinct := by
    unfold Node.Distinct
    decide +kernel
  have built : NodeIndex.build identityTwice = .ok identityTwiceEnvironment.index := by cbv
  have statement : (none, .mk 8 (.expressionStatement (.mk 9 (.identifier "identity")))) ∈
      reached none identityTwice :=
    mem_reached_of_visited (self_mem_reached none identityTwice)
      (List.mem_cons_of_mem _ List.mem_cons_self)
  have name : (none, .mk 9 (.identifier "identity")) ∈ reached none identityTwice :=
    mem_reached_of_visited statement (List.mem_singleton_self _)
  obtain ⟨declaration, refers, polymorphic, same⟩ :
      ∃ declaration, identityTwiceEnvironment.declaration? 9 = some declaration ∧
        isPolymorphic declaration = true ∧ declaration.id = 1 := ⟨_, by cbv, rfl, rfl⟩
  have generic : (Typing.infer identityTwice identityTwiceEnvironment.scope
      identityTwiceEnvironment.index {}).declarations[1]?.map StaticType.genericNames =
        some ["T"] := by decide +kernel
  obtain ⟨type, own, names, ⟨declared, -⟩, typed, instance_, -, -, apart⟩ :=
    (Typing.infer_instantiates identityTwice distinct).2 _ built identityTwiceEnvironment.scope {}
      _ name (.inl ⟨_, rfl⟩) declaration refers polymorphic
  refine ⟨distinct, built, name, declaration, refers, polymorphic, type, own, names, declared,
    typed, instance_, ?_, apart⟩
  rw [same] at declared
  rw [declared, Option.map_some, Option.some.injEq] at generic
  rw [instance_.length, generic]
  rfl

/-- A function that is named where a type is expected. -/
def nameInType : Node :=
  .mk 0 (.program
    [.mk 1 (.functionDecl "f" [] [.mk 2 (.parameter "a" (.mk 3 (.typeName "Number" [])) none)]
        (.mk 4 (.typeName "Number" [])) []),
      .mk 5 (.variableDecl "x" (some (.mk 6 (.typeName "Array" [.mk 7 (.identifier "f")])))
        none)])

/-- The name refers to the function and has no type, because inference does not come to what stands
below an annotation. -/
theorem nameInType_untyped :
    nameInType.identities.Nodup ∧
    ((Compilation.ofTree {} nameInType none {}).1.toOption.map fun compilation =>
      (compilation.scope.resolve 7, compilation.typing.declarations[1]?,
        compilation.typing.typeOf? 7)) =
      some (some 1, some (.function [(some "a", .number)] .number), none) := by
  decide +kernel

end DeclLang
