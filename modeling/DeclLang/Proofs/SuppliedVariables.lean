import DeclLang.Proofs.Moments
import DeclLang.Proofs.PrincipalTypes

/-!
# Where the variables of inference come from

One supply serves everything that inference takes variables for: the slots and the result of a call,
the elements of an array, placeholders, references without a declaration, annotations that say
nothing, and the generic parameters at a reference.

**Input.**  A state of inference whose variables were all taken from its supply.

**Invariant.**  `Inference.State.Supplied`: the variables in constraints, in types of nodes and of
declarations were taken from the supply.  Some of the taken variables may be set aside, as those of a
reference are; they do not occur in the type of any declaration.

**Results.**
* `VariableSupply.mem_takeNames`: variables that are taken anew were never given before.
* `Inference.Draws` says that a step keeps the invariant.  There is one rule for every way of putting
  steps together, and one lemma for every operation of inference.
* `Inference.supplied_advance`, `Inference.supplied_run`: the invariant holds at every moment.
-/

namespace DeclLang

/-- The variables of a type with other leaves are those of what is put in place of its leaves. -/
theorem StaticType.mem_freeVariables_leaves {f g : String → StaticType} {name : String}
    (type : StaticType) :
    name ∈ (type.mapLeaves f g).freeVariables ↔
      (∃ other ∈ type.freeVariables, name ∈ (f other).freeVariables) ∨
        ∃ generic ∈ type.generics, name ∈ (g generic).freeVariables := by
  induction type using parts_induction with
  | onVariable other => simp [mapLeaves, freeVariables, generics]
  | onGeneric other => simp [mapLeaves, freeVariables, generics]
  | onConstant other parameters ih =>
    simp only [mapLeaves, freeVariables, generics, List.flatMap_map, List.mem_flatMap]
    constructor
    · rintro ⟨part, mem, inPart⟩
      rcases (ih part mem).1 inPart with ⟨source, inside, found⟩ | ⟨source, inside, found⟩
      · exact .inl ⟨source, ⟨part, mem, inside⟩, found⟩
      · exact .inr ⟨source, ⟨part, mem, inside⟩, found⟩
    · rintro (⟨source, ⟨part, mem, inside⟩, found⟩ | ⟨source, ⟨part, mem, inside⟩, found⟩)
      · exact ⟨part, mem, (ih part mem).2 (.inl ⟨source, inside, found⟩)⟩
      · exact ⟨part, mem, (ih part mem).2 (.inr ⟨source, inside, found⟩)⟩
  | onFunction arguments result ihArguments ihResult =>
    simp only [mapLeaves, freeVariables, generics, List.flatMap_map, List.mem_append,
      List.mem_flatMap, ihResult]
    constructor
    · rintro (⟨part, mem, inPart⟩ | ⟨source, inside, found⟩ | ⟨source, inside, found⟩)
      · rcases (ihArguments part mem).1 inPart with ⟨source, inside, found⟩ | ⟨source, inside, found⟩
        · exact .inl ⟨source, .inl ⟨part, mem, inside⟩, found⟩
        · exact .inr ⟨source, .inl ⟨part, mem, inside⟩, found⟩
      · exact .inl ⟨source, .inr inside, found⟩
      · exact .inr ⟨source, .inr inside, found⟩
    · rintro (⟨source, ⟨part, mem, inside⟩ | inside, found⟩ |
        ⟨source, ⟨part, mem, inside⟩ | inside, found⟩)
      · exact .inl ⟨part, mem, (ihArguments part mem).2 (.inl ⟨source, inside, found⟩)⟩
      · exact .inr (.inl ⟨source, inside, found⟩)
      · exact .inl ⟨part, mem, (ihArguments part mem).2 (.inr ⟨source, inside, found⟩)⟩
      · exact .inr (.inr ⟨source, inside, found⟩)

namespace VariableSupply

/-- The supply has given the name. -/
def Gave (supply : VariableSupply) (name : String) : Prop :=
  ∃ number < supply.next, name = supply.stem ++ Numeral36.ofNat number

/-- The second supply is what remains of the first one after some names are taken. -/
structure Before (supply later : VariableSupply) : Prop where
  stem : later.stem = supply.stem
  next : supply.next ≤ later.next

/-- The variables of a type were taken from the supply, and none of them is set aside. -/
def Supplies (supply : VariableSupply) (aside : List String) (type : StaticType) : Prop :=
  ∀ name ∈ type.freeVariables, supply.Gave name ∧ name ∉ aside

section

variable {supply middle later : VariableSupply}

theorem Before.refl (supply : VariableSupply) : supply.Before supply :=
  ⟨rfl, Nat.le_refl _⟩

theorem Before.trans (first : supply.Before middle) (second : middle.Before later) :
    supply.Before later :=
  ⟨second.stem.trans first.stem, Nat.le_trans first.next second.next⟩

theorem before_takeName (supply : VariableSupply) : supply.Before supply.takeName.2 :=
  ⟨rfl, Nat.le_succ _⟩

theorem Gave.mono {name : String} (gave : supply.Gave name) (before : supply.Before later) :
    later.Gave name := by
  obtain ⟨number, taken, rfl⟩ := gave
  exact ⟨number, Nat.lt_of_lt_of_le taken before.next, by rw [before.stem]⟩

theorem gave_takeName (supply : VariableSupply) : supply.takeName.2.Gave supply.takeName.1 :=
  ⟨supply.next, Nat.lt_succ_self _, rfl⟩

/-- A name that is taken was never given before, because numerals tell numbers apart. -/
theorem not_gave_takeName (supply : VariableSupply) : ¬supply.Gave supply.takeName.1 := by
  rintro ⟨number, taken, same⟩
  have equal := Numeral36.ofNat_inj ((String.append_right_inj _).1 same)
  omega

theorem before_takeNames (supply : VariableSupply) (count : Nat) :
    supply.Before (supply.takeNames count).2 := by
  induction count generalizing supply with
  | zero => exact .refl _
  | succ count ih => exact supply.before_takeName.trans (ih supply.takeName.2)

/-- Names that are taken together are given then, and were not given before. -/
theorem mem_takeNames {count : Nat} {name : String} (h : name ∈ (supply.takeNames count).1) :
    (supply.takeNames count).2.Gave name ∧ ¬supply.Gave name := by
  induction count generalizing supply with
  | zero => cases h
  | succ count ih =>
    rcases List.mem_cons.1 h with rfl | h
    · exact ⟨supply.gave_takeName.mono (supply.takeName.2.before_takeNames count),
        supply.not_gave_takeName⟩
    · obtain ⟨gave, fresh⟩ := ih h
      exact ⟨gave, fun earlier => fresh (earlier.mono supply.before_takeName)⟩

end

section Supplies

variable {supply later : VariableSupply} {aside : List String}

theorem Supplies.mono {type : StaticType} (h : supply.Supplies aside type)
    (before : supply.Before later) : later.Supplies aside type :=
  fun name mem => ⟨(h name mem).1.mono before, (h name mem).2⟩

theorem Supplies.any {type : StaticType} (h : supply.Supplies aside type) :
    supply.Supplies [] type :=
  fun name mem => ⟨(h name mem).1, List.not_mem_nil⟩

theorem supplies_of_closed {type : StaticType} (closed : type.freeVariables = []) :
    supply.Supplies aside type := by
  intro name mem
  rw [closed] at mem
  cases mem

theorem supplies_variable {name : String} (gave : supply.Gave name) (other : name ∉ aside) :
    supply.Supplies aside (.variable name) := by
  intro found mem
  rw [StaticType.freeVariables, List.mem_singleton] at mem
  exact mem ▸ ⟨gave, other⟩

theorem supplies_constant {name : String} {parameters : List StaticType}
    (each : ∀ parameter ∈ parameters, supply.Supplies aside parameter) :
    supply.Supplies aside (.constant name parameters) := by
  intro found mem
  rw [StaticType.freeVariables, List.mem_flatMap] at mem
  obtain ⟨parameter, inside, mem⟩ := mem
  exact each parameter inside found mem

theorem supplies_function {parameters : List (Option String × StaticType)} {result : StaticType}
    (each : ∀ parameter ∈ parameters, supply.Supplies aside parameter.2)
    (returned : supply.Supplies aside result) :
    supply.Supplies aside (.function parameters result) := by
  intro found mem
  rw [StaticType.freeVariables, List.mem_append, List.mem_flatMap] at mem
  rcases mem with ⟨parameter, inside, mem⟩ | mem
  · exact each parameter inside found mem
  · exact returned found mem

/-- What stands in place of generic parameters brings its own variables. -/
theorem supplies_replaceGenerics {type : StaticType} (own : supply.Supplies aside type)
    {replacement : String → Option StaticType}
    (each : ∀ name other, replacement name = some other → supply.Supplies aside other) :
    supply.Supplies aside (type.replaceGenerics replacement) := by
  intro found mem
  rcases type.mem_freeVariables_leaves.1 mem with ⟨name, inside, mem⟩ | ⟨name, _, mem⟩
  · rw [StaticType.freeVariables, List.mem_singleton] at mem
    exact own found (mem ▸ inside)
  · cases replaced : replacement name with
    | none =>
      rw [replaced, Option.getD_none, StaticType.freeVariables] at mem
      cases mem
    | some other =>
      rw [replaced, Option.getD_some] at mem
      exact each name other replaced found mem

theorem supplies_result {parameters : List (Option String × StaticType)} {result : StaticType}
    (h : supply.Supplies aside (.function parameters result)) : supply.Supplies aside result := by
  intro found mem
  refine h found ?_
  rw [StaticType.freeVariables]
  exact List.mem_append_right _ mem

end Supplies

end VariableSupply

namespace Inference

/-- The variables on both sides of a constraint were taken from the supply. -/
def SuppliesSides (supply : VariableSupply) (constraint : Constraint) : Prop :=
  supply.Supplies [] constraint.head ∧ supply.Supplies [] constraint.tail

theorem SuppliesSides.mono {supply later : VariableSupply} {constraint : Constraint}
    (h : SuppliesSides supply constraint) (before : supply.Before later) :
    SuppliesSides later constraint :=
  ⟨h.1.mono before, h.2.mono before⟩

/-- The variables of a state were taken from its supply.  Those that are set aside do not occur in
the type of any declaration. -/
structure State.Supplied (aside : List String) (state : State) : Prop where
  taken : ∀ name ∈ aside, state.typing.supply.Gave name
  constraints : ∀ constraint ∈ state.typing.constraints,
    SuppliesSides state.typing.supply constraint
  nodes : ∀ (id : NodeId) (type : StaticType), state.typing.nodes[id]? = some type →
    state.typing.supply.Supplies [] type
  declarations : ∀ (id : NodeId) (type : StaticType),
    state.typing.declarations[id]? = some type → state.typing.supply.Supplies aside type
  returnTypes : ∀ type ∈ state.returnTypes, state.typing.supply.Supplies [] type
  demanded : ∀ (id : NodeId) (type : StaticType), state.demanded[id]? = some type →
    state.typing.supply.Supplies [] type

/-- The step draws its variables from the supply.  It starts after the given supply, and its result
is judged by what remains of the supply. -/
def Draws {α : Type} (aside : List String) (start : VariableSupply) (step : Infer α)
    (result : VariableSupply → α → Prop) : Prop :=
  ∀ before : State, before.Supplied aside → start.Before before.typing.supply →
    (step before).2.Supplied aside ∧
      before.typing.supply.Before (step before).2.typing.supply ∧
      result (step before).2.typing.supply (step before).1

section Rules

variable {α β : Type} {aside : List String} {start : VariableSupply}

theorem draws_pure {a : α} {result : VariableSupply → α → Prop}
    (h : ∀ later, start.Before later → result later a) :
    Draws aside start (pure a) result :=
  fun _ supplied before => ⟨supplied, .refl _, h _ before⟩

/-- A step that only looks at the state. -/
theorem draws_get : Draws aside start get fun supply state =>
    state.Supplied aside ∧ state.typing.supply = supply :=
  fun _ supplied _ => ⟨supplied, .refl _, supplied, rfl⟩

/-- A change of the state that takes no variable. -/
theorem draws_modify {change : State → State}
    (supply : ∀ state, (change state).typing.supply = state.typing.supply)
    (keeps : ∀ state : State, start.Before state.typing.supply → state.Supplied aside →
      (change state).Supplied aside) :
    Draws aside start (modify change) fun _ _ => True := by
  intro before supplied earlier
  refine ⟨keeps before earlier supplied, ?_, trivial⟩
  change before.typing.supply.Before (change before).typing.supply
  rw [supply]
  exact .refl _

theorem Draws.bind {step : Infer α} {rest : α → Infer β} {found : VariableSupply → α → Prop}
    {result : VariableSupply → β → Prop} (first : Draws aside start step found)
    (next : ∀ a later, start.Before later → found later a → Draws aside later (rest a) result) :
    Draws aside start (step >>= rest) result := by
  intro before supplied earlier
  obtain ⟨suppliedNext, drawn, found⟩ := first before supplied earlier
  obtain ⟨suppliedLast, drawnNext, last⟩ :=
    next _ _ (earlier.trans drawn) found _ suppliedNext (.refl _)
  exact ⟨suppliedLast, drawn.trans drawnNext, last⟩

theorem Draws.imp {step : Infer α} {result weaker : VariableSupply → α → Prop}
    (h : Draws aside start step result) (imp : ∀ supply a, result supply a → weaker supply a) :
    Draws aside start step weaker := by
  intro before supplied earlier
  obtain ⟨suppliedNext, drawn, found⟩ := h before supplied earlier
  exact ⟨suppliedNext, drawn, imp _ _ found⟩

/-- Steps for the members of a list, one after the other, each with a type in its result. -/
theorem draws_mapM (type : β → StaticType) {items : List α}
    {step : α → Infer β}
    (each : ∀ a ∈ items, ∀ later, start.Before later →
      Draws aside later (step a) fun supply b => supply.Supplies aside (type b)) :
    Draws aside start (items.mapM step) fun supply results =>
      ∀ b ∈ results, supply.Supplies aside (type b) := by
  induction items generalizing start with
  | nil => exact draws_pure fun _ _ => List.forall_mem_nil _
  | cons a items ih =>
    rw [List.mapM_cons]
    refine (each a List.mem_cons_self start (.refl _)).bind fun b middle first here => ?_
    refine (ih fun a mem later second => each a (List.mem_cons_of_mem _ mem) later
      (first.trans second)).bind fun results last second there => ?_
    refine draws_pure fun later third => List.forall_mem_cons.2 ⟨?_, fun b mem => ?_⟩
    · exact here.mono (second.trans third)
    · exact (there b mem).mono third

theorem draws_forIn {items : List α} {body : α → PUnit → Infer (ForInStep PUnit)}
    (each : ∀ a ∈ items, ∀ later, start.Before later →
      Draws aside later (body a PUnit.unit) fun _ _ => True) :
    Draws aside start (forIn items PUnit.unit body) fun _ _ => True := by
  induction items generalizing start with
  | nil => exact draws_pure fun _ _ => trivial
  | cons a items ih =>
    rw [List.forIn_cons]
    refine (each a List.mem_cons_self start (.refl _)).bind fun step middle first _ => ?_
    cases step with
    | done => exact draws_pure fun _ _ => trivial
    | yield =>
      exact ih fun a mem later second => each a (List.mem_cons_of_mem _ mem) later
        (first.trans second)

end Rules

section Steps

variable {aside : List String} {start : VariableSupply}

/-- What was taken from a supply was taken from what remains of it. -/
theorem State.Supplied.withSupply {state : State} (supplied : state.Supplied aside)
    {supply : VariableSupply} (before : state.typing.supply.Before supply) :
    State.Supplied aside { state with typing := { state.typing with supply } } where
  taken name mem := (supplied.taken name mem).mono before
  constraints constraint mem := (supplied.constraints constraint mem).mono before
  nodes id type found := (supplied.nodes id type found).mono before
  declarations id type found := (supplied.declarations id type found).mono before
  returnTypes type mem := (supplied.returnTypes type mem).mono before
  demanded id type found := (supplied.demanded id type found).mono before

/-- A fresh variable is not set aside. -/
theorem draws_fresh :
    Draws aside start fresh fun supply type => supply.Supplies aside type := by
  intro before supplied _
  have drawn := before.typing.supply.before_takeName
  refine ⟨supplied.withSupply drawn, drawn, ?_⟩
  exact VariableSupply.supplies_variable before.typing.supply.gave_takeName fun mem =>
    before.typing.supply.not_gave_takeName (supplied.taken _ mem)

theorem draws_constrain {head tail : StaticType} (left : start.Supplies [] head)
    (right : start.Supplies [] tail) (origin : NodeId) :
    Draws aside start (constrain head tail origin) fun _ _ => True := by
  refine draws_modify (fun _ => rfl) fun state before supplied =>
    { supplied with constraints := fun constraint mem => ?_ }
  rcases Array.mem_push.1 mem with mem | rfl
  · exact supplied.constraints constraint mem
  · exact ⟨left.mono before, right.mono before⟩

/-- What holds of all types in a table holds of them when another one is entered. -/
theorem supplies_insert {supply : VariableSupply} {within : List String}
    {table : Std.TreeMap NodeId StaticType} {id : NodeId} {type : StaticType}
    (own : supply.Supplies within type)
    (others : ∀ (id : NodeId) (type : StaticType), table[id]? = some type →
      supply.Supplies within type) (other : NodeId) (known : StaticType)
    (found : (table.insert id type)[other]? = some known) : supply.Supplies within known := by
  rw [Std.TreeMap.getElem?_insert] at found
  split at found
  · cases found
    exact own
  · exact others other known found

theorem draws_setNodeType {type : StaticType} (own : start.Supplies [] type) (id : NodeId) :
    Draws aside start (setNodeType id type) fun _ _ => True :=
  draws_modify (fun _ => rfl) fun _ before supplied =>
    { supplied with nodes := supplies_insert (own.mono before) supplied.nodes }

theorem draws_setDeclarationType {type : StaticType} (own : start.Supplies aside type)
    (id : NodeId) : Draws aside start (setDeclarationType id type) fun _ _ => True :=
  draws_modify (fun _ => rfl) fun _ before supplied =>
    { supplied with declarations := supplies_insert (own.mono before) supplied.declarations }

theorem draws_typeOf (node : Node) :
    Draws aside start (typeOf node) fun supply type => supply.Supplies [] type := by
  refine draws_get.bind fun state middle _ known => ?_
  obtain ⟨supplied, rfl⟩ := known
  split
  · rename_i type found
    exact draws_pure fun _ before => (supplied.nodes _ _ found).mono before
  · refine draws_fresh.bind fun type later _ own => ?_
    exact (draws_setNodeType own.any node.id).bind fun _ _ before _ =>
      draws_pure fun _ after => own.any.mono (before.trans after)

theorem draws_freshFor (names : List String) :
    Draws aside start (freshFor names) fun supply replacements =>
      ∀ replacement ∈ replacements, supply.Supplies aside replacement.2 := by
  induction names generalizing start with
  | nil => exact draws_pure fun _ _ => List.forall_mem_nil _
  | cons name names ih =>
    refine draws_fresh.bind fun type middle _ own => ih.bind fun rest last first others => ?_
    refine draws_pure fun later second => List.forall_mem_cons.2 ⟨?_, fun other mem => ?_⟩
    · exact own.mono (first.trans second)
    · exact (others other mem).mono second

variable (environment : Environment)

theorem draws_annotationType (node : Node) :
    Draws aside start (annotationType environment node)
      fun supply type => supply.Supplies aside type := by
  induction node using Node.children_induction generalizing start with
  | step node ih =>
    obtain ⟨id, kind⟩ := node
    rw [annotationType_eq]
    cases kind with
    | typeName name arguments =>
      refine (draws_mapM (fun type => type) fun argument mem _ _ => ih argument mem).bind
        fun parameters middle _ known => ?_
      have constant (name : String) : Draws aside middle (pure (.constant name parameters))
          fun supply type => supply.Supplies aside type :=
        draws_pure fun _ before => VariableSupply.supplies_constant fun parameter mem =>
          (known parameter mem).mono before
      split
      · exact draws_pure fun _ _ => VariableSupply.supplies_of_closed (by rw [StaticType.freeVariables])
      · exact constant _
      · exact constant _
      · exact draws_fresh
      · exact constant _
    | functionType arguments result =>
      refine (draws_mapM Prod.snd fun argument mem middle _ => ?_).bind
        fun parameters middle _ known => ?_
      · exact (ih argument (List.mem_append_left _ mem)).bind fun type later _ own =>
          draws_pure fun _ before => own.mono before
      · refine (ih result (List.mem_append_right _ (List.mem_singleton_self _))).bind
          fun type later first own => draws_pure fun _ before => ?_
        exact VariableSupply.supplies_function
          (fun parameter mem => (known parameter mem).mono (first.trans before))
          (own.mono before)
    | _ => exact draws_fresh

theorem draws_arrayType (node : Node) (elements : List Node) :
    Draws aside start (arrayType node elements) fun supply type => supply.Supplies [] type := by
  refine draws_fresh.bind fun element middle _ own => ?_
  refine Draws.bind (draws_forIn fun item _ later before => ?_) fun _ later before _ =>
    draws_pure fun _ after => VariableSupply.supplies_constant fun parameter mem => ?_
  · exact (draws_typeOf item).bind fun type last more known =>
      (draws_constrain (own.any.mono (before.trans more)) known node.id).bind fun _ _ _ _ =>
        draws_pure fun _ _ => trivial
  · rw [List.mem_singleton.1 mem]
    exact own.any.mono (before.trans after)

theorem draws_argumentSlots (received : List (Option String × Option Node)) :
    Draws aside start (argumentSlots received) fun supply found =>
      (∀ slot ∈ found.1, supply.Supplies [] slot.2) ∧
        ∀ demand ∈ found.2, SuppliesSides supply demand := by
  induction received generalizing start with
  | nil => exact draws_pure fun _ _ => ⟨List.forall_mem_nil _, List.forall_mem_nil _⟩
  | cons entry received ih =>
    obtain ⟨label?, argument?⟩ := entry
    refine draws_fresh.bind fun slot first _ own => ?_
    -- Whatever the first slot demands, the remaining slots are taken after it.
    have follow (demands : List Constraint) (second : VariableSupply) (before : first.Before second)
        (made : ∀ demand ∈ demands, SuppliesSides second demand) :
        Draws aside second (do
          let found ← argumentSlots received
          return ((label?, slot) :: found.1, demands ++ found.2)) fun supply found =>
            (∀ slot ∈ found.1, supply.Supplies [] slot.2) ∧
              ∀ demand ∈ found.2, SuppliesSides supply demand := by
      refine ih.bind fun found third next others => draws_pure fun last after =>
        ⟨List.forall_mem_cons.2 ⟨?_, fun slot mem => ?_⟩, ?_⟩
      · exact own.any.mono ((before.trans next).trans after)
      · exact (others.1 slot mem).mono after
      · refine List.forall_mem_append.2 ⟨fun demand mem => ?_, fun demand mem => ?_⟩
        · exact (made demand mem).mono (next.trans after)
        · exact (others.2 demand mem).mono after
    have collected (demands : List Constraint) (second : VariableSupply)
        (made : ∀ demand ∈ demands, SuppliesSides second demand) :
        Draws aside second (pure demands) fun supply demands =>
          ∀ demand ∈ demands, SuppliesSides supply demand :=
      draws_pure fun _ after demand mem => (made demand mem).mono after
    cases argument? with
    | none => exact (collected [] first (List.forall_mem_nil _)).bind follow
    | some argument =>
      refine (draws_typeOf argument).bind fun type second before known =>
        (collected [_] second ?_).bind fun demands third after => follow demands third
          (before.trans after)
      exact List.forall_mem_singleton.2 ⟨own.any.mono before, known⟩

theorem draws_callType (node callee : Node) (arguments : List Node) :
    Draws aside start (callType environment node callee arguments)
      fun supply type => supply.Supplies [] type := by
  refine draws_fresh.bind fun result first _ own => (draws_typeOf callee).bind
    fun called second next known => (draws_argumentSlots _).bind fun received third further given => ?_
  obtain ⟨slots, demands⟩ := received
  have returned := own.any.mono (next.trans further)
  refine (draws_constrain (known.mono further)
    (VariableSupply.supplies_function given.1 returned) node.id).bind fun _ fourth later _ => ?_
  refine Draws.bind (draws_forIn fun demand mem last after => ?_) fun _ last after _ =>
    draws_pure fun _ final => returned.mono ((later.trans after).trans final)
  have sound := given.2 demand mem
  exact (draws_constrain (sound.1.mono (later.trans after)) (sound.2.mono (later.trans after))
    demand.origin).bind fun _ _ _ _ => draws_pure fun _ _ => trivial

theorem freeVariables_named (name : String) : (StaticType.named name).freeVariables = [] := by
  rw [StaticType.freeVariables, List.flatMap_nil]

theorem freeVariables_operandTypes (operator : Operator) :
    (operandTypes operator).1.freeVariables = [] ∧
      (operandTypes operator).2.freeVariables = [] := by
  unfold operandTypes
  split
  · exact ⟨freeVariables_named _, freeVariables_named _⟩
  · split
    · exact ⟨freeVariables_named _, freeVariables_named _⟩
    · exact ⟨freeVariables_named _, freeVariables_named _⟩

theorem draws_binaryType (node : Node) (operator : Operator) (left right : Node) :
    Draws aside start (binaryType node operator left right)
      fun supply type => supply.Supplies [] type := by
  refine (draws_typeOf left).bind fun leftType first _ onLeft => (draws_typeOf right).bind
    fun rightType second next onRight => ?_
  have onLeft := onLeft.mono next
  split
  · exact (draws_constrain onLeft onRight node.id).bind fun _ _ _ _ =>
      draws_pure fun _ _ => VariableSupply.supplies_of_closed (freeVariables_named _)
  · exact (draws_constrain onLeft onRight node.id).bind fun _ _ _ _ =>
      draws_pure fun _ _ => VariableSupply.supplies_of_closed (freeVariables_named _)
  · have closed := freeVariables_operandTypes operator
    refine (draws_constrain (VariableSupply.supplies_of_closed closed.1) onLeft node.id).bind
      fun _ third before _ => ?_
    exact (draws_constrain (VariableSupply.supplies_of_closed closed.1) (onRight.mono before)
      node.id).bind fun _ _ _ _ => draws_pure fun _ _ => VariableSupply.supplies_of_closed closed.2

theorem draws_labeledTypes {steps : Nat} {members : List Node}
    (each : ∀ part ∈ members, ∀ later, start.Before later →
      Draws aside later (declarationType environment steps part)
        fun supply type => supply.Supplies aside type) :
    Draws aside start (labeledTypes environment steps members) fun supply typed =>
      ∀ part ∈ typed, supply.Supplies aside part.2 :=
  draws_mapM Prod.snd fun part mem later before =>
    (each part mem later before).bind fun _ _ _ own => draws_pure fun _ after => own.mono after

/-- A declaration is written with the variables that its parts and annotations draw. -/
theorem draws_writtenType {steps : Nat} (node : Node)
    (each : ∀ part later, Draws aside later (declarationType environment steps part)
      fun supply type => supply.Supplies aside type) :
    Draws aside start (writtenType environment steps node)
      fun supply type => supply.Supplies aside type := by
  have closed (name : String) (generics : List Node) (supply : VariableSupply) :
      supply.Supplies aside (.constant name (genericTypes generics)) :=
    VariableSupply.supplies_of_closed (Account.freeVariables_genericTypes name generics)
  obtain ⟨id, kind⟩ := node
  cases kind with
  | functionDecl name generics parameters result body =>
    refine (draws_labeledTypes environment fun part _ later _ => each part later).bind
      fun received second _ parts => (draws_annotationType environment result).bind
        fun returned third before own => draws_pure fun _ after => ?_
    exact VariableSupply.supplies_function
      (fun part mem => (parts part mem).mono (before.trans after)) (own.mono after)
  | recordDecl name generics declarations =>
    refine (draws_labeledTypes environment fun part _ later _ => each part later).bind
      fun fields second _ parts => draws_pure fun _ after => ?_
    exact VariableSupply.supplies_function (fun part mem => (parts part mem).mono after)
      (closed name generics _)
  | enumerationDecl name generics => exact draws_pure fun _ _ => closed name generics _
  | enumerationCase name values =>
    have around : Draws aside start
        (((environment.index.parent? id).map (declarationType environment steps)).getD fresh)
        fun supply type => supply.Supplies aside type := by
      cases environment.index.parent? id with
      | none => exact draws_fresh
      | some parent => exact each parent start
    refine around.bind fun enumeration second _ own => (draws_mapM Prod.snd
      fun value _ later _ => (draws_annotationType environment value).bind fun type _ _ own =>
        draws_pure fun _ after => own.mono after).bind fun received third before parts =>
          draws_pure fun _ after => ?_
    exact VariableSupply.supplies_function (fun part mem => (parts part mem).mono after)
      (own.mono (before.trans after))
  | parameter name ascription default? => exact draws_annotationType environment ascription
  | variableDecl name ascription? initializer? =>
    cases ascription? with
    | some ascription => exact draws_annotationType environment ascription
    | none => exact draws_fresh
  | genericParameter name =>
    exact draws_pure fun _ _ => VariableSupply.supplies_of_closed (by rw [StaticType.freeVariables])
  | _ => exact draws_fresh

theorem draws_declarationType (steps : Nat) (node : Node) :
    Draws aside start (declarationType environment steps node)
      fun supply type => supply.Supplies aside type := by
  induction steps generalizing node start with
  | zero =>
    rw [declarationType]
    exact Draws.bind (draws_modify (fun _ => rfl) fun _ _ supplied => { supplied with })
      fun _ _ _ _ => draws_fresh
  | succ steps ih =>
    rw [declarationType_succ]
    refine draws_get.bind fun state first _ known => ?_
    obtain ⟨supplied, rfl⟩ := known
    split
    · rename_i type found
      exact draws_pure fun _ before => (supplied.declarations _ _ found).mono before
    · refine (draws_writtenType environment node fun part _ => ih part).bind
        fun type second _ own => (draws_setDeclarationType own node.id).bind
          fun _ third before _ => draws_pure fun _ after => own.mono (before.trans after)

theorem draws_typeOfDeclaration (node : Node) :
    Draws aside start (typeOfDeclaration environment node)
      fun supply type => supply.Supplies aside type :=
  draws_declarationType environment _ node

/-- Neither the declared type nor the variables in place of its generic parameters are set aside. -/
theorem draws_referenceType (id : NodeId) :
    Draws aside start (referenceType environment id)
      fun supply type => supply.Supplies aside type := by
  unfold referenceType
  cases environment.declaration? id with
  | none => exact draws_fresh
  | some declaration =>
    refine (draws_typeOfDeclaration environment declaration).bind fun type first _ own => ?_
    split
    · refine (draws_freshFor type.genericNames).bind fun replacements second before taken =>
        draws_pure fun later after => ?_
      refine VariableSupply.supplies_replaceGenerics (own.mono (before.trans after))
        fun name other found => ?_
      obtain ⟨_, _, split, -⟩ := List.lookup_eq_some_iff.1 found
      exact (taken (name, other) (by simp [split])).mono after
    · exact draws_pure fun _ before => own.mono before

theorem draws_initializedType (node : Node) (initializer? : Option Node) :
    Draws aside start (initializedType environment node initializer?)
      fun supply type => supply.Supplies [] type := by
  refine (draws_typeOfDeclaration environment node).bind fun declared first _ own => ?_
  have own := own.any
  split
  · refine (draws_typeOf _).bind fun type second before known =>
      (draws_constrain (own.mono before) known node.id).bind fun _ third later _ =>
        draws_pure fun _ after => own.mono ((before.trans later).trans after)
  · exact draws_pure fun _ after => own.mono after

/-- A function returns what its type says. -/
theorem draws_enter (node : Node) :
    Draws aside start (enter environment node) fun _ _ => True := by
  have goes (direction : Direction) (later : VariableSupply) :
      Draws aside later (pure direction) fun _ _ => True := draws_pure fun _ _ => trivial
  obtain ⟨id, kind⟩ := node
  cases kind with
  | functionDecl name generics parameters result body =>
    have push (returned : StaticType) (later : VariableSupply)
        (own : later.Supplies [] returned) : Draws aside later (do
          modify fun state => { state with returnTypes := returned :: state.returnTypes }
          return Direction.descend) fun _ _ => True := by
      refine Draws.bind (draws_modify (fun _ => rfl) fun state before supplied =>
        { supplied with returnTypes := ?_ }) fun _ _ _ _ => goes _ _
      exact List.forall_mem_cons.2 ⟨own.mono before, supplied.returnTypes⟩
    refine (draws_typeOfDeclaration environment _).bind fun type first _ own => ?_
    have other : Draws aside first (do
        let returned ← fresh
        modify fun state => { state with returnTypes := returned :: state.returnTypes }
        return Direction.descend) fun _ _ => True :=
      draws_fresh.bind fun returned second _ own => push returned second own.any
    cases type with
    | function received returned =>
      refine Draws.bind (draws_pure fun _ after => ?_) fun returned second _ own => push returned second own
      exact (VariableSupply.supplies_result own).any.mono after
    | _ => exact other
  | recordDecl | enumerationDecl =>
    exact (draws_typeOfDeclaration environment _).bind fun _ _ _ _ => goes _ _
  | branch condition | loop condition =>
    refine Draws.bind (draws_modify (fun _ => rfl) fun state before supplied =>
      { supplied with demanded := ?_ }) fun _ _ _ _ => goes _ _
    exact supplies_insert (VariableSupply.supplies_of_closed (freeVariables_named _))
      supplied.demanded
  | _ => exact goes _ _

/-- What is brought back is held against what is expected. -/
theorem draws_returned (id : NodeId) {returned : StaticType}
    (own : start.Supplies [] returned) :
    Draws aside start (do
      if let some expected := (← get).returnTypes.head? then
        constrain expected returned id
      return some StaticType.unit : Infer (Option StaticType)) fun supply type? =>
        ∀ type ∈ type?, supply.Supplies [] type := by
  have unit (later : VariableSupply) : Draws aside later (pure (some StaticType.unit))
      fun supply (type? : Option StaticType) => ∀ type ∈ type?, supply.Supplies [] type := by
    refine draws_pure fun _ _ type mem => ?_
    cases mem
    exact VariableSupply.supplies_of_closed (freeVariables_named _)
  refine draws_get.bind fun state middle before known => ?_
  obtain ⟨supplied, rfl⟩ := known
  split
  · rename_i expected found
    exact (draws_constrain (supplied.returnTypes _ (List.mem_of_mem_head? found))
      (own.mono before) id).bind fun _ _ _ _ => unit _
  · exact unit _

theorem draws_leftType? (node : Node) :
    Draws aside start (leftType? environment node) fun supply type? =>
      ∀ type ∈ type?, supply.Supplies [] type := by
  have given {step : Infer StaticType} {later : VariableSupply}
      (found : Draws aside later step fun supply type => supply.Supplies [] type) :
      Draws aside later (do return some (← step)) fun supply type? =>
        ∀ type ∈ type?, supply.Supplies [] type :=
    found.bind fun _ _ _ own => draws_pure fun _ after type mem => by
      cases mem
      exact own.mono after
  have closed {type : StaticType} (closed : type.freeVariables = []) (later : VariableSupply) :
      Draws aside later (pure (some type)) fun supply type? =>
        ∀ type ∈ type?, supply.Supplies [] type :=
    draws_pure fun _ _ other mem => by
      cases mem
      exact VariableSupply.supplies_of_closed closed
  have unit (later : VariableSupply) := closed (freeVariables_named "Unit") later
  have anyOf {step : Infer StaticType} {later : VariableSupply}
      (found : Draws aside later step fun supply type => supply.Supplies aside type) :=
    given (found.imp fun _ _ own => own.any)
  obtain ⟨id, kind⟩ := node
  cases kind with
  | literal value => exact closed (by cases value <;> exact freeVariables_named _) _
  | array elements => exact given (draws_arrayType _ elements)
  | identifier name => exact anyOf (draws_referenceType environment id)
  | member object name => exact anyOf (draws_referenceType environment id)
  | call callee arguments => exact given (draws_callType environment _ callee arguments)
  | argument label? expression => exact given (draws_typeOf expression)
  | expressionStatement expression => exact given (draws_typeOf expression)
  | placeholder => exact anyOf draws_fresh
  | binary operator left right => exact given (draws_binaryType _ operator left right)
  | assignment target value =>
    exact (draws_typeOf target).bind fun _ _ _ onTarget => (draws_typeOf value).bind
      fun _ _ before onValue => (draws_constrain (onTarget.mono before) onValue id).bind
        fun _ _ _ _ => unit _
  | functionDecl name generics parameters result body =>
    refine Draws.bind (draws_modify (fun _ => rfl) fun state _ supplied =>
      { supplied with returnTypes := fun type mem => ?_ }) fun _ _ _ _ =>
        anyOf (draws_typeOfDeclaration environment _)
    exact supplied.returnTypes type (List.mem_of_mem_tail mem)
  | recordDecl | enumerationDecl | enumerationCase =>
    exact anyOf (draws_typeOfDeclaration environment _)
  | variableDecl | parameter => exact given (draws_initializedType environment _ _)
  | returnStatement expression? =>
    cases expression? with
    | none =>
      have nothing : Draws aside start (pure StaticType.unit) fun supply type =>
          supply.Supplies [] type :=
        draws_pure fun _ _ => VariableSupply.supplies_of_closed (freeVariables_named _)
      exact nothing.bind fun _ _ _ own => draws_returned id own
    | some expression =>
      exact (draws_typeOf expression).bind fun _ _ _ own => draws_returned id own
  | branch | loop => exact unit _
  | program | namespaceDecl | importDecl | genericParameter | typeName | functionType =>
    exact draws_pure fun _ _ _ mem => nomatch mem

/-- A node is given its type, and held against what is demanded of it. -/
theorem draws_given (node : Node) {type : StaticType} (own : start.Supplies [] type) :
    Draws aside start (do
      if let some expected := (← get).demanded[node.id]? then
        modify fun state => { state with demanded := state.demanded.erase node.id }
        constrain expected type node.id
      setNodeType node.id type) fun _ _ => True := by
  refine draws_get.bind fun state middle before known => ?_
  obtain ⟨supplied, rfl⟩ := known
  have own := own.mono before
  split
  · rename_i expected found
    refine Draws.bind (draws_modify (fun _ => rfl) fun state _ supplied =>
      { supplied with demanded := fun other known remains => ?_ }) fun _ second later _ => ?_
    · rw [Std.TreeMap.getElem?_erase] at remains
      split at remains
      · cases remains
      · exact supplied.demanded other known remains
    · exact (draws_constrain ((supplied.demanded _ _ found).mono later) (own.mono later)
        node.id).bind fun _ _ last _ => draws_setNodeType ((own.mono later).mono last) node.id
  · exact draws_setNodeType own node.id

theorem draws_leave (node : Node) :
    Draws aside start (leave environment node) fun _ _ => True := by
  refine (draws_leftType? environment node).bind fun type? middle _ own => ?_
  cases type? with
  | none => exact draws_pure fun _ _ => trivial
  | some type => exact draws_given node (own type rfl)

end Steps

section Moments

variable {environment : Environment} {aside : List String} {state : State}

/-- The invariant holds before anything is inferred. -/
theorem State.Supplied.start (supply : VariableSupply) :
    (State.initial supply).Supplied [] where
  taken := List.forall_mem_nil _
  constraints _ mem := absurd mem (Array.not_mem_empty _)
  nodes := nofun
  declarations := nofun
  returnTypes := List.forall_mem_nil _
  demanded := nofun

/-- Every moment keeps the invariant. -/
theorem supplied_advance (moment : Moment) (supplied : state.Supplied aside) :
    (environment.advance state moment).Supplied aside := by
  cases moment with
  | entering node => exact (draws_enter environment node state supplied (.refl _)).1
  | leaving node => exact (draws_leave environment node state supplied (.refl _)).1

/-- Every stretch of the tour keeps the invariant. -/
theorem supplied_run (stretch : List Moment) (supplied : state.Supplied aside) :
    (environment.run stretch state).Supplied aside :=
  run_keeps environment (fun moment _ _ => supplied_advance moment) supplied

end Moments

end Inference

end DeclLang
