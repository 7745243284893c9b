import DeclLang.Proofs.TypeAlgebra
import DeclLang.Proofs.TypingRules

/-!
# The steps of inference

**Input.**  A tree with distinct identities and its index; a state of inference.

**Results.**  `Extends` says what every step keeps: constraints, types of nodes and types of
declarations are only added, new types of nodes and the blame for new constraints stay within given
identities, and what is stored for a declaration has the shape that it is written with.  For every
operation of inference there is one lemma that says what it extends and what its result is.

Two types are joined if they are equal or a constraint demands it; under this relation the results
satisfy the typing rules before anything is solved.
-/

namespace DeclLang

namespace Inference

/-- A sequence of two steps passes through the state between them. -/
theorem bind_inv {α β : Type} {first : Infer α} {second : α → Infer β} {before after : State}
    {b : β} (h : (first >>= second) before = (b, after)) :
    ∃ a middle, first before = (a, middle) ∧ second a middle = (b, after) :=
  ⟨_, _, rfl, h⟩

section Rules

variable {α β : Type} {holds : State → Prop} {gives : α → Prop} {givesNext : β → Prop}

/-- The step keeps a property of the state, and what it gives has a property. -/
def Brings (holds : State → Prop) (step : Infer α) (gives : α → Prop) : Prop :=
  ∀ state : State, holds state → holds (step state).2 ∧ gives (step state).1

theorem brings_pure {a : α} (has : gives a) : Brings holds (pure a) gives :=
  fun _ kept => ⟨kept, has⟩

theorem Brings.bind {step : Infer α} {rest : α → Infer β} (first : Brings holds step gives)
    (next : ∀ a, gives a → Brings holds (rest a) givesNext) :
    Brings holds (step >>= rest) givesNext := by
  intro state kept
  obtain ⟨middle, has⟩ := first state kept
  exact next _ has _ middle

theorem Brings.imp {step : Infer α} {more : α → Prop} (h : Brings holds step gives)
    (weaker : ∀ a, gives a → more a) : Brings holds step more :=
  fun state kept => ⟨(h state kept).1, weaker _ (h state kept).2⟩

theorem brings_mapM {items : List α} {step : α → Infer β}
    (each : ∀ a ∈ items, Brings holds (step a) givesNext) :
    Brings holds (items.mapM step) fun results => ∀ b ∈ results, givesNext b := by
  induction items with
  | nil => exact brings_pure fun _ mem => absurd mem List.not_mem_nil
  | cons a items ih =>
    rw [List.mapM_cons]
    refine (each a List.mem_cons_self).bind fun b has => ?_
    refine (ih fun other mem => each other (List.mem_cons_of_mem _ mem)).bind fun results all => ?_
    exact brings_pure (List.forall_mem_cons.2 ⟨has, all⟩)

theorem brings_forIn {items : List α} {body : α → PUnit → Infer (ForInStep PUnit)}
    (each : ∀ a ∈ items, Brings holds (body a PUnit.unit) fun _ => True) :
    Brings holds (forIn items PUnit.unit body) fun _ => True := by
  induction items with
  | nil => exact brings_pure trivial
  | cons a items ih =>
    rw [List.forIn_cons]
    refine (each a List.mem_cons_self).bind fun step _ => ?_
    cases step with
    | done => exact brings_pure trivial
    | yield => exact ih fun b mem => each b (List.mem_cons_of_mem _ mem)

end Rules

/-- Two types are equal, or a constraint demands it. -/
def Joined (constraints : Array Constraint) (s t : StaticType) : Prop :=
  s = t ∨ ∃ constraint ∈ constraints,
    (constraint.head = s ∧ constraint.tail = t) ∨ (constraint.head = t ∧ constraint.tail = s)

theorem Joined.refl (constraints : Array Constraint) (type : StaticType) :
    Joined constraints type type :=
  .inl rfl

/-- Every stored type of a declaration has the shape that the declaration is written with. -/
def Declared (environment : Environment) (root : Node) (state : State) : Prop :=
  ∀ (id : NodeId) (type : StaticType), state.typing.declarations[id]? = some type →
    ∃ declaration ∈ root.preorder, declaration.id = id ∧ DeclaredAs environment declaration type

/-- One state of inference knows what another one knew: it adds types only for the given nodes, and
blames new constraints only on the given nodes. -/
structure Grows (environment : Environment) (root : Node) (parts blamed : List NodeId)
    (before after : State) : Prop where
  constraints : ∃ more, after.typing.constraints.toList =
    before.typing.constraints.toList ++ more ∧ ∀ constraint ∈ more, constraint.origin ∈ blamed
  nodes : ∀ (id : NodeId) (type : StaticType), before.typing.nodes[id]? = some type →
    after.typing.nodes[id]? = some type
  others : ∀ id, id ∉ parts → after.typing.nodes[id]? = before.typing.nodes[id]?
  declarations : ∀ (id : NodeId) (type : StaticType),
    before.typing.declarations[id]? = some type → after.typing.declarations[id]? = some type
  declared : Declared environment root before → Declared environment root after

/-- One state of inference goes on from another at the same place of the tree. -/
structure Extends (environment : Environment) (root : Node) (parts blamed : List NodeId)
    (before after : State) : Prop extends Grows environment root parts blamed before after where
  returnTypes : after.returnTypes = before.returnTypes
  demanded : after.demanded = before.demanded

section

variable {environment : Environment} {root : Node} {parts blamed wider more : List NodeId}
  {before middle after : State}

theorem Grows.refl : Grows environment root parts blamed before before where
  constraints := ⟨[], by simp⟩
  nodes _ _ h := h
  others _ _ := rfl
  declarations _ _ h := h
  declared h := h

theorem Grows.trans (first : Grows environment root parts blamed before middle)
    (second : Grows environment root parts blamed middle after) :
    Grows environment root parts blamed before after where
  constraints := by
    obtain ⟨more, added, here⟩ := first.constraints
    obtain ⟨further, addedNext, there⟩ := second.constraints
    refine ⟨more ++ further, by rw [addedNext, added, List.append_assoc], ?_⟩
    intro constraint mem
    rcases List.mem_append.1 mem with mem | mem
    · exact here constraint mem
    · exact there constraint mem
  nodes id type h := second.nodes id type (first.nodes id type h)
  others id h := (second.others id h).trans (first.others id h)
  declarations id type h := second.declarations id type (first.declarations id type h)
  declared h := second.declared (first.declared h)

theorem Grows.mono (h : Grows environment root parts blamed before after)
    (subset : parts ⊆ wider) (subset' : blamed ⊆ more) :
    Grows environment root wider more before after where
  constraints := by
    obtain ⟨added, eq, origins⟩ := h.constraints
    exact ⟨added, eq, fun constraint mem => subset' (origins constraint mem)⟩
  nodes := h.nodes
  others id outside := h.others id fun mem => outside (subset mem)
  declarations := h.declarations
  declared := h.declared

theorem Grows.mem_constraints (h : Grows environment root parts blamed before after)
    {constraint : Constraint} (mem : constraint ∈ before.typing.constraints) :
    constraint ∈ after.typing.constraints := by
  obtain ⟨more, added, -⟩ := h.constraints
  rw [← Array.mem_toList_iff] at mem ⊢
  rw [added]
  exact List.mem_append_left _ mem

theorem Grows.joined (h : Grows environment root parts blamed before after) {s t : StaticType}
    (joined : Joined before.typing.constraints s t) : Joined after.typing.constraints s t := by
  rcases joined with same | ⟨constraint, mem, ends⟩
  · exact .inl same
  · exact .inr ⟨constraint, h.mem_constraints mem, ends⟩

theorem Extends.refl : Extends environment root parts blamed before before where
  toGrows := .refl
  returnTypes := rfl
  demanded := rfl

theorem Extends.trans (first : Extends environment root parts blamed before middle)
    (second : Extends environment root parts blamed middle after) :
    Extends environment root parts blamed before after where
  toGrows := first.toGrows.trans second.toGrows
  returnTypes := second.returnTypes.trans first.returnTypes
  demanded := second.demanded.trans first.demanded

theorem Extends.mono (h : Extends environment root parts blamed before after)
    (subset : parts ⊆ wider) (subset' : blamed ⊆ more) :
    Extends environment root wider more before after where
  toGrows := h.toGrows.mono subset subset'
  returnTypes := h.returnTypes
  demanded := h.demanded

end

/-- What a state of inference knows, before anything is solved. -/
def judge (environment : Environment) (state : State) : Judgment where
  environment
  typing := state.typing
  same := Joined state.typing.constraints

section

variable {environment : Environment} {root : Node} {parts blamed : List NodeId}
  {before middle after : State}

theorem Grows.refines (h : Grows environment root parts blamed before after) :
    (judge environment before).Refines (judge environment after) where
  environment := rfl
  declarations := h.declarations
  same _ _ := h.joined

/-- What was known of a node is known later. -/
theorem Grows.hasType (h : Grows environment root parts blamed before after) {node : Node}
    {type : StaticType} (hasType : (judge environment before).HasType node type) :
    (judge environment after).HasType node type := by
  obtain ⟨own, found, joined⟩ := hasType
  exact ⟨own, h.nodes _ _ found, h.joined joined⟩

theorem fresh_inv {type : StaticType} (h : fresh before = (type, after)) :
    Extends environment root parts blamed before after ∧ ∃ name, type = .variable name := by
  cases h
  refine ⟨⟨⟨⟨[], ?_⟩, ?_, ?_, ?_, ?_⟩, rfl, rfl⟩, ⟨_, rfl⟩⟩
  · exact ⟨(List.append_nil _).symm, List.forall_mem_nil _⟩
  · exact fun _ _ found => found
  · exact fun _ _ => rfl
  · exact fun _ _ found => found
  · exact fun declared => declared

theorem constrain_inv {head tail : StaticType} {origin : NodeId} (mem : origin ∈ blamed)
    {done : Unit} (h : constrain head tail origin before = (done, after)) :
    Extends environment root parts blamed before after ∧
      Joined after.typing.constraints head tail ∧ Joined after.typing.constraints tail head := by
  cases h
  have added : ({ head, tail, origin } : Constraint) ∈
      before.typing.constraints.push { head, tail, origin } := Array.mem_push_self
  refine ⟨⟨⟨⟨[_], Array.toList_push, ?_⟩, ?_, ?_, ?_, ?_⟩, rfl, rfl⟩, ?_, ?_⟩
  · rintro constraint (_ | _)
    exact mem
    contradiction
  · exact fun _ _ found => found
  · exact fun _ _ => rfl
  · exact fun _ _ found => found
  · exact fun declared => declared
  · exact .inr ⟨_, added, .inl ⟨rfl, rfl⟩⟩
  · exact .inr ⟨_, added, .inr ⟨rfl, rfl⟩⟩

/-- A node without a type is given one. -/
theorem setNodeType_inv {id : NodeId} {type : StaticType} (mem : id ∈ parts)
    (none : before.typing.nodes[id]? = none) {done : Unit}
    (h : setNodeType id type before = (done, after)) :
    Extends environment root parts blamed before after ∧
      after.typing.nodes[id]? = some type := by
  cases h
  refine ⟨⟨⟨⟨[], ?_⟩, ?_, ?_, ?_, ?_⟩, rfl, rfl⟩, Std.TreeMap.getElem?_insert_self⟩
  · exact ⟨(List.append_nil _).symm, List.forall_mem_nil _⟩
  · intro other found known
    dsimp only
    rw [Std.TreeMap.getElem?_insert, if_neg, known]
    intro same
    rw [Nat.compare_eq_eq] at same
    rw [same, known] at none
    cases none
  · intro other outside
    dsimp only
    rw [Std.TreeMap.getElem?_insert, if_neg]
    intro same
    rw [Nat.compare_eq_eq] at same
    exact outside (same ▸ mem)
  · exact fun _ _ found => found
  · exact fun declared => declared

theorem typeOf_inv {node : Node} (mem : node.id ∈ parts) {type : StaticType}
    (h : typeOf node before = (type, after)) :
    Extends environment root parts blamed before after ∧
      after.typing.nodes[node.id]? = some type := by
  unfold typeOf at h
  obtain ⟨state, middle, got, h⟩ := bind_inv h
  cases got
  cases found : before.typing.nodes[node.id]? with
  | some known =>
    rw [found] at h
    cases h
    exact ⟨.refl, found⟩
  | none =>
    rw [found] at h
    obtain ⟨own, middle, taken, h⟩ := bind_inv h
    obtain ⟨done, last, set, h⟩ := bind_inv h
    cases h
    have first : Extends environment root [] [] before middle := (fresh_inv taken).1
    have missing : middle.typing.nodes[node.id]? = none :=
      (first.others _ List.not_mem_nil).trans found
    obtain ⟨second, known⟩ := setNodeType_inv mem missing set
    exact ⟨(first.mono (List.nil_subset _) (List.nil_subset _)).trans second, known⟩

/-- Steps for the members of a list, one after the other. -/
theorem mapM_inv {α β : Type} {step : α → Infer β} {Result : α → β → Prop} {l : List α}
    {results : List β}
    (each : ∀ a ∈ l, ∀ before b after, step a before = (b, after) →
      Extends environment root parts blamed before after ∧ Result a b)
    (h : l.mapM step before = (results, after)) :
    Extends environment root parts blamed before after ∧ List.Forall₂ Result l results := by
  induction l generalizing before results with
  | nil =>
    cases h
    exact ⟨.refl, .nil⟩
  | cons a l ih =>
    rw [List.mapM_cons] at h
    obtain ⟨b, middle, first, h⟩ := bind_inv h
    obtain ⟨bs, last, rest, h⟩ := bind_inv h
    cases h
    obtain ⟨extends_, result⟩ := each a List.mem_cons_self _ _ _ first
    obtain ⟨extendsRest, results⟩ := ih (fun a mem => each a (List.mem_cons_of_mem _ mem)) rest
    exact ⟨extends_.trans extendsRest, .cons result results⟩

/-- Annotations of values without labels, one after the other. -/
theorem unlabeled_inv {ascriptions : List Node} {parameters : List (Option String × StaticType)}
    (each : ∀ ascription ∈ ascriptions, ∀ before type after,
      annotationType environment ascription before = (type, after) →
        Extends environment root parts blamed before after ∧ Denotes environment ascription type)
    (h : (ascriptions.mapM fun ascription => do
      return (none, ← annotationType environment ascription)) before = (parameters, after)) :
    Extends environment root parts blamed before after ∧
      ∃ types : List StaticType, parameters = types.map (fun type => (none, type)) ∧
        List.Forall₂ (Denotes environment) ascriptions types := by
  induction ascriptions generalizing before parameters with
  | nil =>
    cases h
    exact ⟨.refl, [], rfl, .nil⟩
  | cons ascription ascriptions ih =>
    rw [List.mapM_cons] at h
    obtain ⟨parameter, middle, first, h⟩ := bind_inv h
    obtain ⟨type, _, annotated, first⟩ := bind_inv first
    cases first
    obtain ⟨others, last, rest, h⟩ := bind_inv h
    cases h
    obtain ⟨extends_, denoted⟩ := each ascription List.mem_cons_self _ _ _ annotated
    obtain ⟨extendsRest, types, rfl, denotedRest⟩ :=
      ih (fun ascription mem => each ascription (List.mem_cons_of_mem _ mem)) rest
    exact ⟨extends_.trans extendsRest, type :: types, rfl, .cons denoted denotedRest⟩

theorem annotationType_eq (environment : Environment) (node : Node) :
    annotationType environment node =
      match node.kind with
      | .typeName name arguments => do
        let parameters ← arguments.mapM (annotationType environment)
        match (environment.typeDeclaration? node.id).map Node.kind with
        | some (.genericParameter generic) => return .generic generic
        | some (.recordDecl declared ..) | some (.enumerationDecl declared ..) =>
          return .constant declared parameters
        | some _ => fresh
        | none => return .constant name parameters
      | .functionType arguments result => do
        let parameters ← arguments.mapM fun argument => do
          return (none, ← annotationType environment argument)
        return .function parameters (← annotationType environment result)
      | _ => fresh := by
  obtain ⟨id, kind⟩ := node
  rw [annotationType]
  cases kind with
  | typeName name arguments =>
    have parts : (arguments.attach.mapM fun argument => annotationType environment argument.1) =
        arguments.mapM (annotationType environment) := by
      simp only [List.mapM_subtype, List.unattach_attach]
    exact congrArg (· >>= _) parts
  | functionType arguments result =>
    simp only [Node.kind_mk, List.mapM_subtype, List.unattach_attach]
  | _ => rfl

/-- The type of an annotation is what it denotes. -/
theorem annotationType_inv {node : Node} {type : StaticType}
    (h : annotationType environment node before = (type, after)) :
    Extends environment root parts blamed before after ∧ Denotes environment node type := by
  induction node using Node.children_induction generalizing before after type with
  | step node ih =>
    obtain ⟨id, kind⟩ := node
    rw [annotationType_eq] at h
    have silent {name : String} (h : isMeaningful environment (.mk id kind) = false) :
        Denotes environment (.mk id kind) (.variable name) := .nothing h
    cases kind with
    | typeName name arguments =>
      obtain ⟨parameters, middle, written, h⟩ := bind_inv h
      obtain ⟨first, denoted⟩ := mapM_inv (fun argument mem _ _ _ => ih argument mem) written
      cases refers : environment.typeDeclaration? id with
      | none =>
        simp only [Node.id_mk, refers, Option.map_none] at h
        cases h
        exact ⟨first, .undeclared refers denoted⟩
      | some declaration =>
        simp only [Node.id_mk, refers, Option.map_some] at h
        cases kind : declaration.kind with
        | genericParameter generic =>
          rw [kind] at h
          cases h
          exact ⟨first, .generic refers kind⟩
        | recordDecl declared | enumerationDecl declared =>
          rw [kind] at h
          cases h
          refine ⟨first, .declared refers ?_ denoted⟩
          rw [declaredTypeName?, kind]
        | _ =>
          rw [kind] at h
          obtain ⟨second, name, rfl⟩ := fresh_inv h
          refine ⟨first.trans second, silent ?_⟩
          simp only [isMeaningful, Node.kind_mk, Node.id_mk, refers, kind, declaredTypeName?]
          rfl
    | functionType arguments result =>
      obtain ⟨parameters, middle, written, h⟩ := bind_inv h
      obtain ⟨type, last, writtenResult, h⟩ := bind_inv h
      cases h
      obtain ⟨first, types, rfl, denoted⟩ :=
        unlabeled_inv (fun argument mem _ _ _ => ih argument (List.mem_append_left _ mem)) written
      obtain ⟨second, denotedResult⟩ :=
        ih result (List.mem_append_right _ (List.mem_singleton_self _)) writtenResult
      exact ⟨first.trans second, .function denoted denotedResult⟩
    | _ =>
      obtain ⟨first, name, rfl⟩ := fresh_inv h
      exact ⟨first, silent rfl⟩

/-- A declaration that had no type when it was asked for is given one.  Only this declaration can
have got another one in the meantime. -/
theorem setDeclarationType_inv {node : Node} (inside : node ∈ root.preorder) {type : StaticType}
    (shape : DeclaredAs environment node type)
    (missing : before.typing.declarations[node.id]? = none)
    (first : Extends environment root parts blamed before middle) {done : Unit}
    (h : setDeclarationType node.id type middle = (done, after)) :
    Extends environment root parts blamed before after ∧
      after.typing.declarations[node.id]? = some type := by
  cases h
  refine ⟨⟨⟨first.constraints, first.nodes, first.others, ?_, ?_⟩, first.returnTypes,
    first.demanded⟩, Std.TreeMap.getElem?_insert_self⟩
  · intro id known found
    dsimp only
    rw [Std.TreeMap.getElem?_insert, if_neg, first.declarations id known found]
    intro same
    rw [Nat.compare_eq_eq] at same
    rw [same, found] at missing
    cases missing
  · intro declared id known found
    dsimp only at found
    rw [Std.TreeMap.getElem?_insert] at found
    split at found
    · rename_i same
      rw [Nat.compare_eq_eq] at same
      cases found
      exact ⟨node, inside, same, shape⟩
    · exact first.declared declared id known found

/-- The parts of a declaration with their names and types. -/
def labeledTypes (environment : Environment) (steps : Nat) (parts : List Node) :
    Infer (List (Option String × StaticType)) :=
  parts.mapM fun part => do return (part.declaredName?, ← declarationType environment steps part)

/-- The type that a declaration is written with. -/
def writtenType (environment : Environment) (steps : Nat) (node : Node) : Infer StaticType := do
  match node.kind with
  | .functionDecl _ _ parameters result _ =>
    let parameters ← labeledTypes environment steps parameters
    return .function parameters (← annotationType environment result)
  | .recordDecl name generics declarations =>
    let fields ← labeledTypes environment steps
      (declarations.filter fun field => field.fieldSlot?.isSome)
    return .function fields (.constant name (genericTypes generics))
  | .enumerationDecl name generics _ => return .constant name (genericTypes generics)
  | .enumerationCase _ values =>
    let enumeration ← ((environment.index.parent? node.id).map
      (declarationType environment steps)).getD fresh
    let parameters ← values.mapM fun value => do
      return (none, ← annotationType environment value)
    return .function parameters enumeration
  | .parameter _ type _ | .variableDecl _ (some type) _ => annotationType environment type
  | .genericParameter name => return .generic name
  | _ => fresh

/-- A declaration that has no type yet gets the one that it is written with. -/
theorem declarationType_succ (environment : Environment) (steps : Nat) (node : Node) :
    declarationType environment (steps + 1) node = do
      match (← get).typing.declarations[node.id]? with
      | some type => return type
      | none =>
        let type ← writtenType environment steps node
        setDeclarationType node.id type
        return type := by
  obtain ⟨id, kind⟩ := node
  rw [declarationType]
  refine bind_congr fun state => ?_
  cases state.typing.declarations[(Node.mk id kind).id]? with
  | some type => rfl
  | none =>
    cases kind with
    | variableDecl name ascription? initializer? => cases ascription? <;> rfl
    | enumerationCase name values =>
      cases found : environment.index.parent? id with
      | some parent => simp [writtenType, found]
      | none => simp [writtenType, found]
    | _ => simp [writtenType, labeledTypes]

theorem labeledTypes_inv {steps : Nat} {members : List Node}
    {typed : List (Option String × StaticType)}
    (each : ∀ part ∈ members, ∀ before type after,
      declarationType environment steps part before = (type, after) →
        Extends environment root parts blamed before after)
    (h : labeledTypes environment steps members before = (typed, after)) :
    Extends environment root parts blamed before after ∧
      typed.map Prod.fst = members.map Node.declaredName? := by
  unfold labeledTypes at h
  induction members generalizing before typed with
  | nil =>
    cases h
    exact ⟨.refl, rfl⟩
  | cons part members ih =>
    rw [List.mapM_cons] at h
    obtain ⟨labeled, middle, first, h⟩ := bind_inv h
    obtain ⟨type, _, found, first⟩ := bind_inv first
    cases first
    obtain ⟨others, last, rest, h⟩ := bind_inv h
    cases h
    have extends_ := each part List.mem_cons_self _ _ _ found
    obtain ⟨extendsRest, labels⟩ := ih (fun part mem => each part (List.mem_cons_of_mem _ mem)) rest
    refine ⟨extends_.trans extendsRest, ?_⟩
    rw [List.map_cons, List.map_cons, labels]

theorem freshFor_inv {names : List String} {replacements : List (String × StaticType)}
    (h : freshFor names before = (replacements, after)) :
    Extends environment root parts blamed before after := by
  induction names generalizing before replacements with
  | nil =>
    cases h
    exact .refl
  | cons name names ih =>
    obtain ⟨type, middle, taken, h⟩ := bind_inv h
    obtain ⟨rest, last, others, h⟩ := bind_inv h
    cases h
    exact (fresh_inv taken).1.trans (ih others)

section Declarations

variable (built : NodeIndex.build root = .ok environment.index)

include built

/-- The type that a declaration is written with has its shape. -/
theorem writtenType_inv {steps : Nat} {node : Node} (inside : node ∈ root.preorder)
    (ih : ∀ part ∈ root.preorder, ∀ before type after,
      declarationType environment steps part before = (type, after) →
        Extends environment root parts blamed before after)
    {type : StaticType} (h : writtenType environment steps node before = (type, after)) :
    Extends environment root parts blamed before after ∧ DeclaredAs environment node type := by
  have below (part : Node) (mem : part ∈ node.children) : part ∈ root.preorder :=
    Node.mem_preorder_trans inside
      (Node.mem_preorder_of_mem_children mem part.self_mem_preorder)
  obtain ⟨id, kind⟩ := node
  cases kind with
  | functionDecl name generics parameters result body =>
    obtain ⟨received, middle, receives, h⟩ := bind_inv h
    obtain ⟨returned, _, annotated, h⟩ := bind_inv h
    cases h
    obtain ⟨first, labels⟩ := labeledTypes_inv
      (fun part mem => ih part (below part (by simp [Node.children, Kind.children, mem]))) receives
    obtain ⟨second, denoted⟩ := annotationType_inv annotated
    exact ⟨first.trans second, received, returned, rfl, labels, denoted⟩
  | recordDecl name generics declarations =>
    obtain ⟨fields, middle, holds, h⟩ := bind_inv h
    cases h
    obtain ⟨first, labels⟩ := labeledTypes_inv (fun part mem => ih part (below part
      (List.mem_append_right _ (List.mem_filter.1 mem).1))) holds
    exact ⟨first, fields, rfl, labels⟩
  | enumerationDecl name generics cases =>
    cases h
    exact ⟨.refl, rfl⟩
  | enumerationCase name values =>
    obtain ⟨enumeration, middle, around, h⟩ := bind_inv h
    obtain ⟨received, _, written, h⟩ := bind_inv h
    cases h
    obtain ⟨second, types, rfl, denoted⟩ :=
      unlabeled_inv (fun _ _ _ _ _ => annotationType_inv) written
    refine ⟨Extends.trans ?_ second, types, enumeration, rfl, denoted⟩
    cases found : environment.index.parent? id with
    | none =>
      simp only [Node.id_mk, found] at around
      exact (fresh_inv around).1
    | some parent =>
      simp only [Node.id_mk, found] at around
      exact ih parent (NodeIndex.mem_of_parent? built found) _ _ _ around
  | parameter name ascription default? => exact annotationType_inv h
  | variableDecl name ascription? initializer? =>
    cases ascription? with
    | some ascription => exact annotationType_inv h
    | none => exact fresh_inv h
  | genericParameter name =>
    cases h
    exact ⟨.refl, rfl⟩
  | _ => exact fresh_inv h

/-- The type of a declaration is kept. -/
theorem declarationType_inv {steps : Nat} {node : Node} (inside : node ∈ root.preorder)
    {type : StaticType} (h : declarationType environment steps node before = (type, after)) :
    Extends environment root parts blamed before after ∧
      (0 < steps → after.typing.declarations[node.id]? = some type) := by
  induction steps generalizing node before type after with
  | zero =>
    rw [declarationType] at h
    obtain ⟨done, middle, marked, h⟩ := bind_inv h
    cases marked
    have second : Extends environment root parts blamed
        { before with selfContained := true } after := (fresh_inv h).1
    refine ⟨⟨⟨second.constraints, second.nodes, second.others, second.declarations,
      second.declared⟩, second.returnTypes, second.demanded⟩, fun positive => ?_⟩
    exact absurd positive (Nat.lt_irrefl 0)
  | succ steps ih =>
    rw [declarationType_succ] at h
    obtain ⟨state, middle, got, h⟩ := bind_inv h
    cases got
    cases missing : before.typing.declarations[node.id]? with
    | some known =>
      rw [missing] at h
      cases h
      exact ⟨.refl, fun _ => missing⟩
    | none =>
      rw [missing] at h
      obtain ⟨own, middle, written, h⟩ := bind_inv h
      obtain ⟨done, last, set, h⟩ := bind_inv h
      cases h
      obtain ⟨first, shape⟩ :=
        writtenType_inv built inside (fun part mem _ _ _ h => (ih mem h).1) written
      obtain ⟨extends_, stored⟩ := setDeclarationType_inv inside shape missing first set
      exact ⟨extends_, fun _ => stored⟩

/-- After the type of a declaration was asked for, it is declared. -/
theorem typeOfDeclaration_inv (distinct : root.Distinct) {node : Node}
    (inside : node ∈ root.preorder) (declared : Declared environment root before)
    {type : StaticType} (h : typeOfDeclaration environment node before = (type, after)) :
    Extends environment root parts blamed before after ∧
      (judge environment after).Declares node type := by
  unfold typeOfDeclaration at h
  obtain ⟨extends_, stored⟩ := declarationType_inv built inside h
  have found := stored (Nat.succ_pos _)
  obtain ⟨declaration, mem, same, shape⟩ := extends_.declared declared _ _ found
  have own : declaration = node := Node.eq_of_id_eq distinct mem inside same
  exact ⟨extends_, found, own ▸ shape⟩

/-- A reference has the type of its declaration, or an instance of it. -/
theorem referenceType_inv (distinct : root.Distinct) (declared : Declared environment root before)
    {id : NodeId} {type : StaticType}
    (h : referenceType environment id before = (type, after)) :
    Extends environment root parts blamed before after ∧
      (judge environment after).Refers id type := by
  unfold referenceType at h
  cases refers : environment.declaration? id with
  | none =>
    rw [refers] at h
    exact ⟨(fresh_inv h).1, Judgment.refers_of_none refers⟩
  | some declaration =>
    rw [refers] at h
    obtain ⟨written, middle, found, h⟩ := bind_inv h
    obtain ⟨_, _, got⟩ := Option.bind_eq_some_iff.1 refers
    obtain ⟨first, declares⟩ := typeOfDeclaration_inv built distinct
      (NodeIndex.mem_of_get? built got).1 declared found
    split at h
    · rename_i polymorphic
      rw [Bool.and_eq_true] at polymorphic
      obtain ⟨replacements, last, taken, h⟩ := bind_inv h
      cases h
      have second : Extends environment root parts blamed middle after := freshFor_inv taken
      refine ⟨first.trans second,
        Judgment.refers_of_some refers (declares.mono second.refines) ?_⟩
      rw [if_pos polymorphic.1]
      exact ⟨_, .refl _ _⟩
    · rename_i closed
      cases h
      refine ⟨first, Judgment.refers_of_some refers declares ?_⟩
      split
      · refine ⟨fun _ => none, .inl ?_⟩
        exact type.mapLeaves_leaves.symm
      · exact .refl _ _

/-- The declared type of a variable or a parameter is held against its initializer. -/
theorem initializedType_inv (distinct : root.Distinct) {node : Node}
    (inside : node ∈ root.preorder) (declared : Declared environment root before)
    {initializer? : Option Node}
    (below : ∀ initializer, initializer? = some initializer →
      initializer.id ∈ parts ∧ node.id ∈ blamed)
    {type : StaticType}
    (h : initializedType environment node initializer? before = (type, after)) :
    Extends environment root parts blamed before after ∧
      (judge environment after).Declares node type ∧
      ∀ initializer, initializer? = some initializer →
        (judge environment after).HasType initializer type := by
  unfold initializedType at h
  obtain ⟨written, middle, found, h⟩ := bind_inv h
  obtain ⟨first, declares⟩ := typeOfDeclaration_inv built distinct inside declared found
  cases initializer? with
  | none =>
    cases h
    exact ⟨first, declares, nofun⟩
  | some initializer =>
    obtain ⟨initial, next, typed, h⟩ := bind_inv h
    obtain ⟨done, last, demanded, h⟩ := bind_inv h
    cases h
    have second : Extends environment root parts blamed middle next ∧ _ :=
      typeOf_inv (below initializer rfl).1 typed
    have third : Extends environment root parts blamed next after ∧ _ :=
      constrain_inv (below initializer rfl).2 demanded
    refine ⟨(first.trans second.1).trans third.1,
      declares.mono (second.1.trans third.1).refines, ?_⟩
    rintro _ ⟨⟩
    exact ⟨initial, third.1.nodes _ _ second.2, third.2.2⟩

end Declarations

/-- The elements of an array are held against the type of its elements. -/
theorem elements_inv {id : NodeId} (own : id ∈ blamed) {element : StaticType} {elements : List Node}
    (below : ∀ item ∈ elements, item.id ∈ parts) {done : PUnit}
    (h : (forIn elements PUnit.unit fun item _ => do
      constrain element (← typeOf item) id
      return .yield PUnit.unit) before = (done, after)) :
    Extends environment root parts blamed before after ∧
      ∀ item ∈ elements, (judge environment after).HasType item element := by
  induction elements generalizing before with
  | nil =>
    cases h
    exact ⟨.refl, nofun⟩
  | cons item elements ih =>
    rw [List.forIn_cons] at h
    obtain ⟨_, last, step, h⟩ := bind_inv h
    obtain ⟨type, next, typed, step⟩ := bind_inv step
    obtain ⟨_, _, demanded, step⟩ := bind_inv step
    cases step
    have first : Extends environment root parts blamed before next ∧ _ :=
      typeOf_inv (below item List.mem_cons_self) typed
    have second : Extends environment root parts blamed next last ∧ _ :=
      constrain_inv own demanded
    obtain ⟨third, others⟩ := ih (fun item mem => below item (List.mem_cons_of_mem _ mem)) h
    refine ⟨(first.1.trans second.1).trans third, ?_⟩
    rintro _ (_ | ⟨_, mem⟩)
    · exact third.hasType ⟨type, second.1.nodes _ _ first.2, second.2.2⟩
    · exact others _ mem

theorem arrayType_inv {node : Node} (own : node.id ∈ blamed) {elements : List Node}
    (below : ∀ item ∈ elements, item.id ∈ parts) {type : StaticType}
    (h : arrayType node elements before = (type, after)) :
    Extends environment root parts blamed before after ∧ ∃ element, type = .array element ∧
      ∀ item ∈ elements, (judge environment after).HasType item element := by
  unfold arrayType at h
  obtain ⟨element, middle, taken, h⟩ := bind_inv h
  obtain ⟨done, last, loop, h⟩ := bind_inv h
  cases h
  have first : Extends environment root parts blamed before middle ∧ _ := fresh_inv taken
  obtain ⟨second, items⟩ := elements_inv own below loop
  exact ⟨first.1.trans second, element, rfl, items⟩

/-- Every received argument has a slot, and a demand if it is there. -/
theorem argumentSlots_inv {received : List (Option String × Option Node)}
    (below : ∀ label? argument, (label?, some argument) ∈ received → argument.id ∈ parts)
    {slots : List (Option String × StaticType)} {demands : List Constraint}
    (h : argumentSlots received before = ((slots, demands), after)) :
    Extends environment root parts blamed before after ∧
      (∀ demand ∈ demands, ∃ label? argument, (label?, some argument) ∈ received ∧
        demand.origin = argument.id) ∧
      List.Forall₂ (fun received slot => slot.1 = received.1 ∧
        ∀ argument, received.2 = some argument → ∃ demand ∈ demands, demand.head = slot.2 ∧
          after.typing.nodes[argument.id]? = some demand.tail) received slots := by
  induction received generalizing before slots demands with
  | nil =>
    cases h
    exact ⟨.refl, nofun, .nil⟩
  | cons first received ih =>
    obtain ⟨label?, argument?⟩ := first
    have rest {before : State} {slots demands}
        (h : argumentSlots received before = ((slots, demands), after)) :=
      ih (fun label? argument mem => below label? argument (List.mem_cons_of_mem _ mem)) h
    have later {demands : List Constraint}
        (origins : ∀ demand ∈ demands, ∃ label? argument,
          (label?, some argument) ∈ received ∧ demand.origin = argument.id)
        {head : Option String × Option Node} (demand : Constraint) (mem : demand ∈ demands) :
        ∃ label? argument, (label?, some argument) ∈ head :: received ∧
          demand.origin = argument.id := by
      obtain ⟨label?, argument, mem, origin⟩ := origins demand mem
      exact ⟨label?, argument, List.mem_cons_of_mem _ mem, origin⟩
    rw [argumentSlots] at h
    obtain ⟨slot, middle, taken, h⟩ := bind_inv h
    have first : Extends environment root parts blamed before middle ∧ _ := fresh_inv taken
    cases argument? with
    | none =>
      obtain ⟨_, _, nothing, h⟩ := bind_inv h
      cases nothing
      obtain ⟨⟨others, constraints⟩, last, followed, h⟩ := bind_inv h
      cases h
      obtain ⟨second, origins, matched⟩ := rest followed
      exact ⟨first.1.trans second, later origins, .cons ⟨rfl, nofun⟩ matched⟩
    | some argument =>
      obtain ⟨type, next, typed, h⟩ := bind_inv h
      obtain ⟨_, _, collected, h⟩ := bind_inv h
      cases collected
      obtain ⟨⟨others, constraints⟩, last, followed, h⟩ := bind_inv h
      cases h
      have second : Extends environment root parts blamed middle next ∧ _ :=
        typeOf_inv (below label? argument List.mem_cons_self) typed
      obtain ⟨third, origins, matched⟩ := rest followed
      refine ⟨(first.1.trans second.1).trans third, ?_, .cons ⟨rfl, ?_⟩ ?_⟩
      · rintro demand (_ | ⟨_, mem⟩)
        · exact ⟨label?, argument, List.mem_cons_self, rfl⟩
        · exact later origins demand mem
      · rintro _ ⟨⟩
        exact ⟨_, List.mem_cons_self, rfl, third.nodes _ _ second.2⟩
      · refine matched.imp fun received slot fits => ⟨fits.1, fun argument given => ?_⟩
        obtain ⟨demand, mem, same, known⟩ := fits.2 argument given
        exact ⟨demand, List.mem_cons_of_mem _ mem, same, known⟩

/-- Demands that were collected are made. -/
theorem demands_inv {demands : List Constraint}
    (origins : ∀ demand ∈ demands, demand.origin ∈ blamed) {done : PUnit}
    (h : (forIn demands PUnit.unit fun (demand : Constraint) _ => do
      constrain demand.head demand.tail demand.origin
      return .yield PUnit.unit) before = (done, after)) :
    Extends environment root parts blamed before after ∧
      ∀ demand ∈ demands, Joined after.typing.constraints demand.tail demand.head := by
  induction demands generalizing before with
  | nil =>
    cases h
    exact ⟨.refl, nofun⟩
  | cons demand demands ih =>
    rw [List.forIn_cons] at h
    obtain ⟨_, last, step, h⟩ := bind_inv h
    obtain ⟨_, _, demanded, step⟩ := bind_inv step
    cases step
    have first : Extends environment root parts blamed before last ∧ _ :=
      constrain_inv (origins demand List.mem_cons_self) demanded
    obtain ⟨second, others⟩ := ih (fun demand mem => origins demand (List.mem_cons_of_mem _ mem)) h
    refine ⟨first.1.trans second, ?_⟩
    rintro _ (_ | ⟨_, mem⟩)
    · exact second.joined first.2.2
    · exact others _ mem

/-- The callee of a call is a function from what the arguments bring to the type of the call. -/
theorem callType_inv {node callee : Node} {arguments : List Node} (own : node.id ∈ blamed)
    (called : callee.id ∈ parts) (below : ∀ argument ∈ arguments, argument.id ∈ parts)
    (origins : ∀ argument ∈ arguments, argument.id ∈ blamed) {result : StaticType}
    (h : callType environment node callee arguments before = (result, after)) :
    Extends environment root parts blamed before after ∧ ∃ slots,
      (judge environment after).HasType callee (.function slots result) ∧
      List.Forall₂ (judge environment after).Receives
        (receivedArguments environment callee arguments) slots := by
  unfold callType at h
  obtain ⟨type, s₁, taken, h⟩ := bind_inv h
  obtain ⟨calleeType, s₂, typed, h⟩ := bind_inv h
  obtain ⟨⟨slots, demands⟩, s₃, slotted, h⟩ := bind_inv h
  obtain ⟨_, s₄, demanded, h⟩ := bind_inv h
  obtain ⟨_, s₅, loop, h⟩ := bind_inv h
  cases h
  have first : Extends environment root parts blamed before s₁ ∧ _ := fresh_inv taken
  have second : Extends environment root parts blamed s₁ s₂ ∧ _ := typeOf_inv called typed
  have third : Extends environment root parts blamed s₂ s₃ ∧ _ := argumentSlots_inv
    (fun label? argument mem => below argument (mem_of_mem_receivedArguments mem)) slotted
  have fourth : Extends environment root parts blamed s₃ s₄ ∧ _ := constrain_inv own demanded
  have fifth : Extends environment root parts blamed s₄ after ∧
      ∀ demand ∈ demands, Joined after.typing.constraints demand.tail demand.head := by
    refine demands_inv (fun demand mem => ?_) loop
    obtain ⟨label?, argument, received, origin⟩ := third.2.1 demand mem
    rw [origin]
    exact origins argument (mem_of_mem_receivedArguments received)
  refine ⟨(((first.1.trans second.1).trans third.1).trans fourth.1).trans fifth.1, slots, ?_, ?_⟩
  · refine fifth.1.hasType ⟨calleeType, ?_, fourth.2.1⟩
    exact fourth.1.nodes _ _ (third.1.nodes _ _ second.2)
  · refine third.2.2.imp fun received slot fits => ⟨fits.1, fun argument given => ?_⟩
    obtain ⟨demand, mem, same, known⟩ := fits.2 argument given
    rw [← same]
    exact ⟨demand.tail, fifth.1.nodes _ _ (fourth.1.nodes _ _ known), fifth.2 demand mem⟩

/-- Both operands are held against one type. -/
theorem operands_inv {id : NodeId} (own : id ∈ blamed) {left right : Node}
    {operand leftType rightType result type : StaticType}
    (knownLeft : before.typing.nodes[left.id]? = some leftType)
    (knownRight : before.typing.nodes[right.id]? = some rightType)
    (h : (do
      constrain operand leftType id
      constrain operand rightType id
      return result) before = (type, after)) :
    Extends environment root parts blamed before after ∧ type = result ∧
      (judge environment after).HasType left operand ∧
      (judge environment after).HasType right operand := by
  obtain ⟨_, middle, onLeft, h⟩ := bind_inv h
  obtain ⟨_, last, onRight, h⟩ := bind_inv h
  cases h
  have first : Extends environment root parts blamed before middle ∧ _ := constrain_inv own onLeft
  have second : Extends environment root parts blamed middle after ∧ _ :=
    constrain_inv own onRight
  refine ⟨first.1.trans second.1, rfl, ?_, ?_⟩
  · exact second.1.hasType ⟨leftType, first.1.nodes _ _ knownLeft, first.2.2⟩
  · exact ⟨rightType, second.1.nodes _ _ (first.1.nodes _ _ knownRight), second.2.2⟩

/-- Both operands are held against each other. -/
theorem equality_inv {id : NodeId} (own : id ∈ blamed) {left right : Node}
    {leftType rightType type : StaticType}
    (knownLeft : before.typing.nodes[left.id]? = some leftType)
    (knownRight : before.typing.nodes[right.id]? = some rightType)
    (h : (do
      constrain leftType rightType id
      return StaticType.boolean) before = (type, after)) :
    Extends environment root parts blamed before after ∧ type = .boolean ∧
      (judge environment after).HasType left rightType ∧
      (judge environment after).HasType right rightType := by
  obtain ⟨_, middle, demanded, h⟩ := bind_inv h
  cases h
  have first : Extends environment root parts blamed before after ∧ _ := constrain_inv own demanded
  refine ⟨first.1, rfl, ?_, ?_⟩
  · exact ⟨leftType, first.1.nodes _ _ knownLeft, first.2.1⟩
  · exact ⟨rightType, first.1.nodes _ _ knownRight, .refl _ _⟩

/-- The operands of an operator have the types that it operates on. -/
theorem binaryType_inv {node left right : Node} {operator : Operator} (own : node.id ∈ blamed)
    (onLeft : left.id ∈ parts) (onRight : right.id ∈ parts) {result : StaticType}
    (h : binaryType node operator left right before = (result, after)) :
    Extends environment root parts blamed before after ∧ ∃ operand,
      Operates operator operand result ∧ (judge environment after).HasType left operand ∧
      (judge environment after).HasType right operand := by
  unfold binaryType at h
  obtain ⟨leftType, s₁, typedLeft, h⟩ := bind_inv h
  obtain ⟨rightType, s₂, typedRight, h⟩ := bind_inv h
  have first : Extends environment root parts blamed before s₁ ∧ _ := typeOf_inv onLeft typedLeft
  have second : Extends environment root parts blamed s₁ s₂ ∧ _ := typeOf_inv onRight typedRight
  have known := second.1.nodes _ _ first.2
  cases operator with
  | equal =>
    obtain ⟨third, rfl, operands⟩ := equality_inv own known second.2 h
    exact ⟨(first.1.trans second.1).trans third, rightType, .equal _, operands⟩
  | notEqual =>
    obtain ⟨third, rfl, operands⟩ := equality_inv own known second.2 h
    exact ⟨(first.1.trans second.1).trans third, rightType, .notEqual _, operands⟩
  | add | subtract | multiply | divide =>
    obtain ⟨third, rfl, operands⟩ := operands_inv own known second.2 h
    exact ⟨(first.1.trans second.1).trans third, _, .arithmetic rfl, operands⟩
  | less | greater | lessOrEqual | greaterOrEqual =>
    obtain ⟨third, rfl, operands⟩ := operands_inv own known second.2 h
    exact ⟨(first.1.trans second.1).trans third, _, .ordering rfl, operands⟩
  | and =>
    obtain ⟨third, rfl, operands⟩ := operands_inv own known second.2 h
    exact ⟨(first.1.trans second.1).trans third, _, .and, operands⟩
  | or =>
    obtain ⟨third, rfl, operands⟩ := operands_inv own known second.2 h
    exact ⟨(first.1.trans second.1).trans third, _, .or, operands⟩

end

end Inference

end DeclLang
