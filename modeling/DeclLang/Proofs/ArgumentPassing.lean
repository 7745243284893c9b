import Mathlib.Data.List.Zip
import DeclLang.Proofs.FaithfulRecipes
import DeclLang.Proofs.ReferenceSemantics
import DeclLang.Proofs.TypingSoundness

/-!
# Arguments at compile time and at run time

**Input.**  A call whose callee refers to a function or a record, and whose arguments fill the slots
of that declaration (`Call.Fits`).

**Results.**  `Compilation.arguments_agree`: inference and evaluation give every slot the same
argument.  The type of the argument is the one that the callee is typed with at the slot, and its
value is the one that the function or the record has there; a slot without an argument keeps its
default.  A native function gets the values in written order instead.
-/

namespace DeclLang

open Inference (reached labeledArgument)

namespace Call

/-- The arguments of a call by their numbers, with their labels. -/
def numbered (arguments : List Node) : List (Option String × Nat) :=
  arguments.mapIdx fun number argument => ((labeledArgument argument).1, number)

/-- The arguments of a call, given by their numbers, fill the slots of its callee: no slot without a
default stays empty, and no argument is a placeholder. -/
structure Fits (slots : List Slot) (arguments : List Node) (filled : List (Option Nat)) : Prop where
  aligned : align slots (numbered arguments) = .ok filled
  complete : ∀ pair ∈ filled.zip slots, (pair.1.isSome || pair.2.hasDefault) = true
  valued : ∀ argument ∈ arguments,
    Registration.isPlaceholder (Registration.labeledExpression argument).2 = false

/-- What a slot receives: the value of the argument that fills it, or else its default. -/
def received? (values : List Value) (default? : Option Value) (number? : Option Nat) :
    Option Value :=
  (number?.bind fun number => values[number]?).or default?

/-- Every slot received what there is for it. -/
def Passes (filled : List (Option Nat)) (values : List Value) (defaults : List (Option Value))
    (received : List Value) : Prop :=
  received.map some = (defaults.zip filled).map fun pair => received? values pair.1 pair.2

/-- The arguments of a call as it is registered: their labels, and which of them have a value. -/
def written (arguments : List Node) : List (Option String × Bool) :=
  (arguments.map Registration.labeledExpression).map fun argument =>
    (argument.1, !Registration.isPlaceholder argument.2)

/-- Slots that all have something to receive receive it. -/
theorem receive_of_aligned {slots : List (String × Option Value)} {arguments : Arguments}
    {filled : List (Option (Option Value))}
    (aligned : align (slots.map fun slot => { name := slot.1, hasDefault := slot.2.isSome })
      arguments = .ok filled)
    {values : List Value}
    (each : (slots.zip filled).map (fun pair => pair.2.join.or pair.1.2) = values.map some) :
    receive slots arguments = .ok values := by
  unfold receive
  rw [aligned]
  dsimp only
  generalize slots.zip filled = pairs at each
  induction pairs generalizing values with
  | nil =>
    cases values with
    | nil => rfl
    | cons value values => cases each
  | cons pair pairs ih =>
    cases values with
    | nil => cases each
    | cons value values =>
      obtain ⟨first, rest⟩ := List.cons.inj each
      have first : pair.2.join.or pair.1.2 = some value := first
      rw [List.mapM_cons, ih rest, first]
      rfl

/-- Where every slot has something to receive, that can be collected. -/
theorem exists_received {α : Type} {slots : List α} {f : α → Option Value}
    (h : ∀ slot ∈ slots, (f slot).isSome) :
    ∃ values : List Value, slots.map f = values.map some := by
  induction slots with
  | nil => exact ⟨[], rfl⟩
  | cons slot slots ih =>
    obtain ⟨value, found⟩ := Option.isSome_iff_exists.1 (h slot List.mem_cons_self)
    obtain ⟨values, rest⟩ := ih fun other mem => h other (List.mem_cons_of_mem _ mem)
    exact ⟨value :: values, by rw [List.map_cons, found, rest]; rfl⟩

/-- Labels that all have a value get the values in order. -/
theorem distribute_written {α : Type} (labels : List α) (values : List Value) :
    distribute (labels.map fun label => (label, true)) values =
      labels.mapIdx fun number label => (label, values[number]?) := by
  induction labels generalizing values with
  | nil => rfl
  | cons label labels ih =>
    rw [List.map_cons, List.mapIdx_cons, distribute, ih, List.head?_eq_getElem?]
    simp only [List.getElem?_tail]

end Call

section Fits

variable {slots : List Slot} {arguments : List Node} {filled : List (Option Nat)}
  (fits : Call.Fits slots arguments filled)

include fits

theorem Call.Fits.length : filled.length = slots.length :=
  align_length fits.aligned

/-- Every number that fills a slot is the number of an argument. -/
theorem Call.Fits.lt {number : Nat} (mem : some number ∈ filled) : number < arguments.length := by
  have inside := align_from fits.aligned mem
  obtain ⟨entry, own, rfl⟩ := List.mem_map.1 inside
  obtain ⟨number, bound, rfl⟩ := List.mem_mapIdx.1 own
  exact bound

/-- The labels are written with a value each. -/
theorem Call.Fits.labels :
    written arguments =
      (arguments.map fun argument => (labeledArgument argument).1).map
        fun label => (label, true) := by
  rw [written, List.map_map, List.map_map]
  refine List.map_congr_left fun argument mem => ?_
  have same : (Registration.labeledExpression argument).1 = (labeledArgument argument).1 := by
    obtain ⟨id, kind⟩ := argument
    cases kind <;> rfl
  dsimp only [Function.comp_apply]
  rw [fits.valued argument mem, same]
  rfl

/-- A call depends on its callee and all its arguments. -/
theorem Call.Fits.dependencies :
    (arguments.map Registration.labeledExpression).filter (fun argument =>
        !Registration.isPlaceholder argument.2) =
      arguments.map Registration.labeledExpression := by
  refine List.filter_eq_self.2 fun argument mem => ?_
  obtain ⟨own, inside, rfl⟩ := List.mem_map.1 mem
  rw [fits.valued own inside]
  rfl

/-- The values of the arguments fill the slots like their numbers do. -/
theorem Call.Fits.aligned_values (values : List Value) :
    align slots (Call.distribute (written arguments) values) =
      .ok (filled.map (Option.map fun number => values[number]?)) := by
  have numbers : Call.distribute (written arguments) values =
      (numbered arguments).map fun argument => (argument.1, values[argument.2]?) := by
    rw [fits.labels, Call.distribute_written, numbered]
    refine List.ext_getElem? fun position => ?_
    simp only [List.getElem?_mapIdx, List.getElem?_map, Option.map_map]
    rfl
  rw [numbers, align_map (fun number => values[number]?), fits.aligned]
  rfl

/-- Slots with such defaults all receive something. -/
theorem Call.Fits.receive {fields : List (String × Option Value)}
    (same : (fields.map fun field => ({ name := field.1, hasDefault := field.2.isSome } : Slot)) =
      slots)
    {values : List Value} (length : values.length = arguments.length) :
    ∃ received, Call.receive fields (Call.distribute (written arguments) values) = .ok received ∧
      Passes filled values (fields.map Prod.snd) received := by
  have all : ∀ pair ∈ fields.zip filled, (received? values pair.1.2 pair.2).isSome := by
    rintro ⟨field, number?⟩ mem
    cases number? with
    | some number =>
      have bound : number < values.length := length ▸ fits.lt (List.of_mem_zip mem).2
      rw [received?, Option.bind_some, List.getElem?_eq_getElem bound, Option.some_or]
      rfl
    | none =>
      have paired : (none, ({ name := field.1, hasDefault := field.2.isSome } : Slot)) ∈
          filled.zip slots := by
        rw [← same, List.zip_map_right, ← List.zip_swap, List.map_map]
        exact List.mem_map.2 ⟨_, mem, rfl⟩
      exact fits.complete _ paired
  obtain ⟨received, collected⟩ := exists_received all
  refine ⟨received, Call.receive_of_aligned (same ▸ fits.aligned_values values) ?_, ?_⟩
  · rw [← collected, List.zip_map_right, List.map_map]
    refine List.map_congr_left fun pair _ => ?_
    obtain ⟨field, number?⟩ := pair
    cases number? <;> rfl
  · rw [Passes, ← collected, List.zip_map_left, List.map_map]
    rfl

/-- A native function gets all values in written order. -/
theorem Call.Fits.given {values : List Value} (length : values.length = arguments.length) :
    (Call.distribute (written arguments) values).filterMap Prod.snd = values := by
  have same : (Call.distribute (written arguments) values).map Prod.snd = values.map some := by
    rw [fits.labels, Call.distribute_written]
    refine List.ext_getElem? fun position => ?_
    simp only [List.getElem?_map, List.getElem?_mapIdx, Option.map_map]
    by_cases inside : position < values.length
    · rw [List.getElem?_eq_getElem inside, List.getElem?_eq_getElem (length ▸ inside)]
      rfl
    · rw [List.getElem?_eq_none (Nat.le_of_not_lt inside),
        List.getElem?_eq_none (length ▸ Nat.le_of_not_lt inside)]
      rfl
  have collected := congrArg (List.filterMap id) same
  rwa [List.filterMap_map, List.filterMap_map, Function.id_comp, Function.id_comp,
    List.filterMap_some] at collected

/-- The arguments themselves fill the slots like their numbers do. -/
theorem Call.Fits.aligned_nodes :
    ∃ nodes, align slots (arguments.map labeledArgument) = .ok nodes ∧
      nodes.map (Option.map some) =
        filled.map (Option.map fun number => arguments[number]?) := by
  have same : (arguments.map labeledArgument).map (fun argument => (argument.1, some argument.2)) =
      (numbered arguments).map fun argument => (argument.1, arguments[argument.2]?) := by
    refine List.ext_getElem? fun position => ?_
    rw [numbered]
    simp only [List.getElem?_mapIdx, List.getElem?_map, Option.map_map]
    cases found : arguments[position]? with
    | none => rfl
    | some argument =>
      simp only [Option.map_some, Function.comp_apply, found, Inference.labeledArgument_snd]
  have both := align_map some slots (arguments.map labeledArgument)
  rw [same, align_map (fun number => arguments[number]?), fits.aligned] at both
  cases aligned : align slots (arguments.map labeledArgument) with
  | error error =>
    rw [aligned] at both
    cases both
  | ok nodes =>
    rw [aligned] at both
    exact ⟨nodes, rfl, (Except.ok.inj both).symm⟩

/-- What fills the slots is complete for inference too. -/
theorem Call.Fits.slotted {nodes : List (Option Node)}
    (aligned : align slots (arguments.map labeledArgument) = .ok nodes)
    (same : nodes.map (Option.map some) =
      filled.map (Option.map fun number => arguments[number]?)) :
    Inference.slotted? slots arguments =
      some ((slots.map fun slot => some slot.name).zip nodes) := by
  have complete : (nodes.zip slots).all (fun pair => pair.1.isSome || pair.2.hasDefault) =
      true := by
    rw [List.all_eq_true]
    rintro ⟨node?, slot⟩ mem
    obtain ⟨position, found⟩ := List.mem_iff_getElem?.1 mem
    obtain ⟨here, there⟩ := List.getElem?_zip_eq_some.1 found
    have entry := congrArg (fun entries => entries[position]?) same
    simp only [List.getElem?_map, here, Option.map_some] at entry
    obtain ⟨number?, number, equal⟩ := Option.map_eq_some_iff.1 entry.symm
    have paired := fits.complete (number?, slot)
      (List.mem_iff_getElem?.2 ⟨position, List.getElem?_zip_eq_some.2 ⟨number, there⟩⟩)
    cases node? with
    | some node => rfl
    | none =>
      cases number? with
      | none => exact paired
      | some number => cases equal
  unfold Inference.slotted?
  rw [aligned]
  dsimp only
  rw [if_pos complete]

omit fits in
/-- What a callee receives, told by the numbers of the arguments. -/
theorem Judgment.receives_numbered {judgment : Judgment} {names : List (Option String)}
    {nodes : List (Option Node)} {types : List (Option String × StaticType)}
    (length : names.length = nodes.length)
    (same : nodes.map (Option.map some) =
      filled.map (Option.map fun number => arguments[number]?))
    (receives : List.Forall₂ judgment.Receives (names.zip nodes) types) :
    types.map Prod.fst = names ∧ List.Forall₂ (fun number? type =>
      ∀ number argument, number? = some number → arguments[number]? = some argument →
        judgment.HasType argument type.2) filled types := by
  induction names generalizing nodes types filled with
  | nil =>
    obtain rfl := List.length_eq_zero_iff.1 length.symm
    obtain rfl := List.map_eq_nil_iff.1 same.symm
    cases receives
    exact ⟨rfl, .nil⟩
  | cons name names ih =>
    cases nodes with
    | nil => cases length
    | cons node? nodes =>
      cases filled with
      | nil => cases same
      | cons number? filled =>
        obtain ⟨first, rest⟩ := List.cons.inj same
        cases receives with
        | cons own others =>
          obtain ⟨labels, given⟩ := ih (Nat.succ.inj length) rest others
          refine ⟨congrArg₂ List.cons own.1 labels, .cons ?_ given⟩
          rintro number argument rfl found
          refine own.2 argument ?_
          rw [Option.map_some, found] at first
          cases node? with
          | none => cases first
          | some node =>
            cases first
            rfl

/-- Inference types the callee with the types of the arguments at the slots that they fill. -/
theorem Call.Fits.typed {judgment : Judgment} {callee declaration : Node}
    (resolved : judgment.environment.declaration? callee.id = some declaration)
    (slotted : declaration.slots? = some slots) {function? : Option Node} {id : NodeId}
    {own : StaticType} (rule : judgment.Rule function? (.mk id (.call callee arguments)) own) :
    ∃ types result, judgment.same own result ∧ judgment.HasType callee (.function types result) ∧
      types.map Prod.fst = slots.map (fun slot => some slot.name) ∧
      List.Forall₂ (fun number? type => ∀ number argument, number? = some number →
        arguments[number]? = some argument → judgment.HasType argument type.2) filled types := by
  obtain ⟨nodes, aligned, same⟩ := fits.aligned_nodes
  have received : Inference.receivedArguments judgment.environment callee arguments =
      (slots.map fun slot => some slot.name).zip nodes := by
    unfold Inference.receivedArguments
    rw [resolved]
    dsimp only [Option.bind_some]
    rw [slotted, Option.bind_some, fits.slotted aligned same, Option.getD_some]
  obtain ⟨types, result, agrees, called, receives⟩ := rule
  rw [received] at receives
  have length : (slots.map fun slot => some slot.name).length = nodes.length := by
    rw [List.length_map, align_length aligned]
  obtain ⟨labels, given⟩ := Judgment.receives_numbered length same receives
  exact ⟨types, result, agrees, called, labels, given⟩

end Fits

/-- Different bindings are all there. -/
theorem Context.value?_addValues_of_mem (context : Context) {bindings : List (NodeId × Value)}
    (nodup : (bindings.map Prod.fst).Nodup) {id : NodeId} {value : Value}
    (mem : (id, value) ∈ bindings) : (context.addValues bindings).value? id = some value := by
  induction bindings generalizing context with
  | nil => cases mem
  | cons binding bindings ih =>
    rw [List.map_cons, List.nodup_cons] at nodup
    rcases List.mem_cons.1 mem with rfl | mem
    · change ((context.addValue id value).addValues bindings).value? id = some value
      rw [value?_addValues _ nodup.1, value?_addValue, if_pos rfl]
    · exact ih (context.addValue binding.1 binding.2) nodup.2 mem

/-- The parameters of a function have different identities. -/
theorem Call.nodup_parametersOf {declaration : Node} (distinct : declaration.Distinct) :
    ((parametersOf declaration).map fun parameter => parameter.1.id).Nodup := by
  have children : (declaration.children.map Node.id).Nodup := by
    rw [List.Nodup, List.pairwise_map]
    refine distinct.pairwise_disjoint.imp fun {left right} disjoint same => ?_
    have here := Node.id_mem_identities left.self_mem_preorder
    have there := Node.id_mem_identities right.self_mem_preorder
    rw [← same] at there
    exact disjoint here there
  obtain ⟨id, kind⟩ := declaration
  cases kind with
  | functionDecl name generics parameters returnType body =>
    have sublist : parameters.Sublist (generics ++ parameters ++ returnType :: body) :=
      (List.sublist_append_right generics parameters).trans (List.sublist_append_left _ _)
    have own := children.sublist (sublist.map Node.id)
    rwa [parametersOf, Node.kind_mk, List.map_map]
  | _ => exact List.nodup_nil

/-- Executes the body of a function value with the values of its parameters. -/
def Closure.run (closure : Closure) (plan : Plan) (limits : Limits)
    (evaluate : NodeId → Eval Value) (values : List Value) : Eval Value := do
  let (flow, _) ← Eval.within (closure.frame plan values)
    (Statement.executeBlock plan limits evaluate (Call.bodyOf closure.declaration) [])
  return flow.result

section Functions

variable {compilation : Compilation} {closure : Closure} (faithful : closure.Faithful compilation)

include faithful

/-- The slots of a function value are those of its declaration. -/
theorem Closure.Faithful.slots {slots : List Slot}
    (slotted : closure.declaration.slots? = some slots)
    (plain : ∀ parameter ∈ Call.parametersOf closure.declaration,
      parameter.1.parameterSlot?.isSome) :
    closure.slots.map (fun slot => ({ name := slot.1, hasDefault := slot.2.isSome } : Slot)) =
      slots := by
  have shape : closure.slots.map
      (fun slot => ({ name := slot.1, hasDefault := slot.2.isSome } : Slot)) =
        (Call.parametersOf closure.declaration).map fun parameter =>
          { name := parameter.1.declaredName?.getD "", hasDefault := parameter.2 } := by
    rw [← faithful.parameters, Closure.slots, List.map_map, List.map_map]
    rfl
  obtain ⟨name, generics, parameters, returnType, body, function⟩ := faithful.function
  rw [Node.slots?, function] at slotted
  rw [Call.parametersOf, function] at plain
  cases slotted
  rw [shape, Call.parametersOf, function, List.map_map, ← List.filterMap_eq_map]
  refine List.filterMap_congr fun parameter mem => ?_
  have named := plain _ (List.mem_map_of_mem mem)
  obtain ⟨id, kind⟩ := parameter
  cases kind with
  | parameter => rfl
  | _ => cases named

/-- The body of a function value starts with the value of every parameter. -/
theorem Closure.Faithful.value?_frame (distinct : compilation.root.Distinct) (plan : Plan)
    {values : List Value} (length : closure.parameters.length ≤ values.length) {position : Nat}
    {parameter : Node × Option Value} {value : Value}
    (at_ : closure.parameters[position]? = some parameter)
    (given : values[position]? = some value) :
    (closure.frame plan values).value? parameter.1.id = some value := by
  obtain ⟨function?, place⟩ := faithful.place
  have nodup := Call.nodup_parametersOf
    (distinct.inner (Inference.mem_preorder_of_mem_reached place))
  have same : (Call.parametersOf closure.declaration).map (fun parameter => parameter.1.id) =
      closure.parameters.map fun parameter => parameter.1.id := by
    rw [← faithful.parameters, List.map_map]
    rfl
  have enough : (closure.parameters.map fun parameter => parameter.1.id).length ≤
      values.length := by
    rwa [List.length_map]
  rw [same, ← List.map_fst_zip enough] at nodup
  refine Context.value?_addValues_of_mem _ nodup ?_
  refine List.mem_iff_getElem?.2 ⟨position, List.getElem?_zip_eq_some.2 ⟨?_, given⟩⟩
  rw [List.getElem?_map, at_]
  rfl

end Functions

/-- What inference knows of the types of a tree before any constraint is solved. -/
def Typing.collected (typing : Typing) (environment : Inference.Environment) : Judgment where
  environment
  typing
  same := Inference.Joined typing.constraints

/-- The constraints of a tree demand the rule of every node that inference comes to. -/
theorem Typing.infer_rules {root : Node} {index : NodeIndex} (distinct : root.Distinct)
    (built : NodeIndex.build root = .ok index) (scope : Scope) (supply : VariableSupply)
    {place : Option Node × Node} (mem : place ∈ reached none root)
    (typed : Inference.isTyped place.2 = true) :
    ∃ own, ((Typing.infer root scope index supply).collected { scope, index }).Rule place.1
      place.2 own := by
  have toured := Inference.toured_collect built distinct root.self_mem_preorder
    (.start { scope, index } root supply)
  obtain ⟨own, -, rule⟩ := toured.rules place (by simpa using mem) typed
  exact ⟨own, rule⟩

namespace Compilation

/-- What references of a compiled program are looked up in. -/
def environment (compilation : Compilation) : Inference.Environment :=
  { scope := compilation.scope, index := compilation.index }

/-- The types of a compiled program are inferred from its tree. -/
theorem typing_of_ofTree {options : Options} {root : Node} {focus : Option NodeId}
    {before after : Reports} {compilation : Compilation}
    (compiled : ofTree options root focus before = (.ok compilation, after)) :
    compilation.root = root ∧ NodeIndex.build compilation.root = .ok compilation.index ∧
      ∃ supply, compilation.typing =
        Typing.infer compilation.root compilation.scope compilation.index supply := by
  unfold ofTree at compiled
  obtain ⟨index, _, indexed, compiled⟩ := Step.bind_ok_inv compiled
  obtain ⟨names, _, -, compiled⟩ := Step.bind_ok_inv compiled
  obtain ⟨scope, _, -, compiled⟩ := Step.bind_ok_inv compiled
  obtain ⟨unifier, _, -, compiled⟩ := Step.bind_ok_inv compiled
  cases compiled
  exact ⟨rfl, ofExcept_ok indexed, _, rfl⟩

section Agree

variable {compilation : Compilation} {slots : List Slot}
  {arguments : List Node} {filled : List (Option Nat)} (fits : Call.Fits slots arguments filled)
  (plan : Plan) (limits : Limits) (evaluate : NodeId → Eval Value) (id : NodeId)
  (result : StaticType) {values : List Value} (length : values.length = arguments.length)

include fits length

/-- A function value binds every parameter to the value of the argument there. -/
theorem follow_closure {closure : Closure} (faithful : closure.Faithful compilation)
    (slotted : closure.declaration.slots? = some slots)
    (plain : ∀ parameter ∈ Call.parametersOf closure.declaration,
      parameter.1.parameterSlot?.isSome) :
    ∃ received, Call.Passes filled values (closure.parameters.map Prod.snd) received ∧
      ∀ (machine : Machine) (name : String) (declaration : NodeId) (serial : Nat)
        (type : StaticType), machine.session.closures[serial]? = some closure →
          Call.follow plan limits evaluate id (.call result (Call.written arguments))
            (.mk type (.closure name declaration serial) :: values) machine =
              closure.run plan limits evaluate received machine := by
  have slotsEq := faithful.slots slotted plain
  obtain ⟨received, receives, passes⟩ := fits.receive slotsEq length
  have defaults : closure.slots.map Prod.snd = closure.parameters.map Prod.snd := by
    rw [Closure.slots, List.map_map]
    rfl
  rw [defaults] at passes
  refine ⟨received, passes, fun machine name declaration serial type made => ?_⟩
  have got : (get : Eval Machine) machine = (.ok machine, machine) := rfl
  have ok : Eval.ofExcept (Call.receive closure.slots
      (Call.distribute (Call.written arguments) values)) machine = (.ok received, machine) := by
    rw [receives]
    rfl
  change (Call.callValue plan limits evaluate id (.mk type (.closure name declaration serial))
    (Call.distribute (Call.written arguments) values) result) machine = _
  unfold Call.callValue
  dsimp only [Value.content_mk]
  rw [Step.bind_ok got]
  rw [made]
  dsimp only
  rw [Call.callClosure_eq, Step.bind_ok ok]
  rfl

/-- A constructor puts the value of every argument into the field there. -/
theorem follow_constructor {defaults : List Value}
    (enough : (slots.filter Slot.hasDefault).length ≤ defaults.length) (record : NodeId) :
    ∃ received, Call.Passes filled values ((Call.distribute
        (slots.map fun slot => (slot.name, slot.hasDefault)) defaults).map Prod.snd) received ∧
      ∀ (machine : Machine) (type : StaticType),
        Call.follow plan limits evaluate id (.call result (Call.written arguments))
          (.mk type (.recordConstructor record (Call.distribute
            (slots.map fun slot => (slot.name, slot.hasDefault)) defaults)) :: values) machine =
              (.ok (.mk result (.record ((slots.map Slot.name).zip received))), machine) := by
  have named : (slots.map fun slot => (slot.name, slot.hasDefault)).filter Prod.snd =
      (slots.filter Slot.hasDefault).map fun slot => (slot.name, slot.hasDefault) := by
    rw [List.filter_map]
    rfl
  have shape := Call.map_isSome_distribute (slots.map fun slot => (slot.name, slot.hasDefault))
    (by rwa [named, List.length_map] : _ ≤ defaults.length)
  have names := Call.map_fst_distribute (slots.map fun slot => (slot.name, slot.hasDefault))
    defaults
  generalize Call.distribute (slots.map fun slot => (slot.name, slot.hasDefault)) defaults =
    fields at shape names
  have same : fields.map (fun field => ({ name := field.1, hasDefault := field.2.isSome } : Slot)) =
      slots := by
    have back := congrArg (List.map fun field : String × Bool => Slot.mk field.1 field.2) shape
    rw [List.map_map, List.map_map] at back
    exact back.trans (List.map_id _)
  obtain ⟨received, receives, passes⟩ := fits.receive same length
  refine ⟨received, passes, fun machine type => ?_⟩
  have ok : Eval.ofExcept (Call.receive fields (Call.distribute (Call.written arguments) values))
      machine = (.ok received, machine) := by
    rw [receives]
    rfl
  change (Call.callValue plan limits evaluate id (.mk type (.recordConstructor record fields))
    (Call.distribute (Call.written arguments) values) result) machine = _
  unfold Call.callValue
  dsimp only [Value.content_mk]
  rw [Step.bind_ok ok, names, List.map_map]
  rfl

end Agree

/-- Inference and evaluation give every slot of a callee the same argument.

Inference types the callee, at the slot that an argument fills, with the type of that argument.
When the arguments have values, in written order, a function value made of the declaration starts
its body with the value of that argument in the parameter there, and the constructor that the recipe of
the record makes of its defaults puts it into the field there; a slot that stays empty has its
default.  A native function, however, gets all values in written order. -/
theorem arguments_agree {options : Options} {root : Node} {focus : Option NodeId}
    {before after : Reports} {compilation : Compilation}
    (compiled : ofTree options root focus before = (.ok compilation, after))
    {function? : Option Node} {id : NodeId} {callee : Node} {arguments : List Node}
    (mem : (function?, Node.mk id (.call callee arguments)) ∈ reached none compilation.root)
    {declaration : Node}
    (resolved : compilation.environment.declaration? callee.id = some declaration)
    {slots : List Slot} (slotted : declaration.slots? = some slots)
    (plain : ∀ parameter ∈ Call.parametersOf declaration, parameter.1.parameterSlot?.isSome)
    {filled : List (Option Nat)} (fits : Call.Fits slots arguments filled) :
    (∃ types result,
      (compilation.typing.collected compilation.environment).HasType callee
        (.function types result) ∧
      types.map Prod.fst = slots.map (fun slot => some slot.name) ∧
      List.Forall₂ (fun number? type => ∀ number argument, number? = some number →
        arguments[number]? = some argument →
          (compilation.typing.collected compilation.environment).HasType argument type.2)
        filled types) ∧
    ∃ result, compilation.context.thunk? id = some
        { dependencies := callee.id :: arguments.map fun argument =>
            (Registration.labeledExpression argument).2.id
          recipe := .call result (Call.written arguments) } ∧
      (∀ name generics declarations function?,
        declaration.kind = .recordDecl name generics declarations →
        (function?, declaration) ∈ reached none compilation.root →
          ∃ type dependencies, compilation.context.thunk? declaration.id = some
              { dependencies
                recipe := .recordConstructor type declaration.id
                  (slots.map fun slot => (slot.name, slot.hasDefault)) } ∧
            dependencies.length = (slots.filter Slot.hasDefault).length) ∧
      ∀ (values : List Value), values.length = arguments.length →
        ∀ (queries : List Query) (limits : Limits) (evaluate : NodeId → Eval Value),
          let follow (callee : Content Value) (type : StaticType) : Eval Value :=
            Call.follow compilation.evaluator.plan limits evaluate id
              (.call result (Call.written arguments)) (.mk type callee :: values)
          (∀ closure ∈ (compilation.after queries).session.closures,
            closure.declaration = declaration →
            ∃ received, Call.Passes filled values (closure.parameters.map Prod.snd) received ∧
              (∀ (position : Nat) parameter value, closure.parameters[position]? = some parameter →
                received[position]? = some value →
                (closure.frame compilation.evaluator.plan received).value? parameter.1.id =
                  some value) ∧
              ∀ (machine : Machine) name (serial : Nat) type,
                machine.session.closures[serial]? = some closure →
                follow (.closure name declaration.id serial) type machine =
                  closure.run compilation.evaluator.plan limits evaluate received machine) ∧
          (∀ defaults : List Value, (slots.filter Slot.hasDefault).length ≤ defaults.length →
            let fields := Call.distribute (slots.map fun slot => (slot.name, slot.hasDefault))
              defaults
            ∃ received, Call.Passes filled values (fields.map Prod.snd) received ∧
              ∀ (machine : Machine) type,
                follow (.recordConstructor declaration.id fields) type machine =
                  (.ok (.mk result (.record ((slots.map Slot.name).zip received))), machine)) ∧
          ∀ path type, follow (.builtin path) type = Eval.ofExcept (Builtin.call path values) := by
  have consistent := consistent_of_ofTree compiled
  obtain ⟨-, built, supply, inferred⟩ := typing_of_ofTree compiled
  obtain ⟨own, rule⟩ :=
    Typing.infer_rules consistent.distinct built compilation.scope supply mem rfl
  rw [← inferred] at rule
  obtain ⟨types, type, -, typed⟩ := fits.typed resolved slotted rule
  have found := Registration.thunk?_call consistent.distinct compilation.scope compilation.typing
    compilation.solution mem
  rw [← consistent.context, fits.dependencies, List.map_map] at found
  refine ⟨⟨types, type, typed⟩, _, found, fun name generics declarations function? kind place => ?_,
    fun values length queries limits evaluate =>
      ⟨fun closure made same => ?_, fun defaults enough => ?_, fun path type => ?_⟩⟩
  · obtain ⟨self, own⟩ := declaration
    cases kind
    cases slotted
    rw [consistent.context]
    exact ⟨_, Registration.thunk?_record consistent.distinct compilation.scope compilation.typing
      compilation.solution place⟩
  · have faithful := (faithful_after consistent queries).2 closure made
    subst same
    obtain ⟨received, passes, follows⟩ := follow_closure fits compilation.evaluator.plan limits
      evaluate id (Registration.Environment.typeOf { compilation with } id) length faithful slotted
      plain
    have enough : closure.parameters.length ≤ received.length := by
      have count := congrArg List.length passes
      have parameters := congrArg List.length (faithful.slots slotted plain)
      rw [List.length_map, Closure.slots, List.length_map] at parameters
      rw [List.length_map, List.length_map, List.length_zip, List.length_map, fits.length,
        parameters, Nat.min_self] at count
      omega
    exact ⟨received, passes, fun position parameter value => faithful.value?_frame
      consistent.distinct compilation.evaluator.plan enough, fun machine name serial type =>
        follows machine name closure.declaration.id serial type⟩
  · obtain ⟨received, passes, follows⟩ := follow_constructor fits compilation.evaluator.plan limits
      evaluate id (Registration.Environment.typeOf { compilation with } id) length enough
      declaration.id
    exact ⟨received, passes, follows⟩
  · change Eval.ofExcept (Builtin.call path ((Call.distribute (Call.written arguments)
      values).filterMap Prod.snd)) = _
    rw [fits.given length]

/-- A record of two fields. -/
def pairRecord : Node :=
  .mk 1 (.recordDecl "Pair" []
    [.mk 2 (.variableDecl "a" (some (.mk 3 (.typeName "String" []))) none),
      .mk 4 (.variableDecl "b" (some (.mk 5 (.typeName "String" []))) none)])

/-- The fields of the record, in another order. -/
def swappedFields : List Node :=
  [.mk 9 (.argument (some "b") (.mk 10 (.literal (.string "x")))),
    .mk 11 (.argument (some "a") (.mk 12 (.literal (.string "y"))))]

/-- A program that makes the record of these fields. -/
def swappedPair : Node :=
  .mk 0 (.program
    [pairRecord,
      .mk 6 (.variableDecl "pair" none
        (some (.mk 7 (.call (.mk 8 (.identifier "Pair")) swappedFields))))])

theorem swappedFields_fits :
    Call.Fits [⟨"a", false⟩, ⟨"b", false⟩] swappedFields [some 1, some 0] where
  aligned := by decide +kernel
  complete := by decide
  valued := by decide

/-- The fields get the values with their labels. -/
theorem arguments_agree_swappedPair :
    ∃ compilation after result,
      ofTree {} swappedPair none {} = (.ok compilation, after) ∧
      compilation.context.thunk? 7 = some
        { dependencies := [8, 10, 12]
          recipe := .call result [(some "b", true), (some "a", true)] } ∧
      (∃ type, compilation.context.thunk? 1 = some
        { dependencies := []
          recipe := .recordConstructor type 1 [("a", false), ("b", false)] }) ∧
      ∀ (limits : Limits) (evaluate : NodeId → Eval Value) (machine : Machine)
        (type : StaticType),
        Call.follow compilation.evaluator.plan limits evaluate 7
          (.call result [(some "b", true), (some "a", true)])
          [.mk type (.recordConstructor 1 [("a", none), ("b", none)]), .string "x", .string "y"]
          machine = (.ok (.mk result (.record [("a", .string "y"), ("b", .string "x")])),
            machine) := by
  have compiles : ((ofTree {} swappedPair none {}).1.toOption.bind fun compilation =>
      (compilation.environment.declaration? 8).map Node.id) = some 1 := by decide +kernel
  obtain ⟨compilation, compiled, refers⟩ := compiled_of_toOption compiles
  obtain ⟨declaration, resolved, same⟩ := Option.map_eq_some_iff.1 refers
  have consistent := consistent_of_ofTree compiled
  obtain ⟨own, built, -⟩ := typing_of_ofTree compiled
  have record : pairRecord ∈ compilation.root.preorder := by
    rw [own]
    exact Node.mem_preorder_of_mem_children List.mem_cons_self pairRecord.self_mem_preorder
  have call : (none, Node.mk 7 (.call (.mk 8 (.identifier "Pair")) swappedFields)) ∈
      reached none compilation.root := by
    rw [own]
    have variable_ := Inference.mem_reached_of_visited
      (Inference.self_mem_reached none swappedPair) (List.mem_cons_of_mem _ List.mem_cons_self)
    exact Inference.mem_reached_of_visited variable_ List.mem_cons_self
  have found := NodeIndex.mem_of_get? built (Option.bind_eq_some_iff.1 resolved).choose_spec.2
  obtain rfl := Node.eq_of_id_eq consistent.distinct found.1 record same
  have declared : pairRecord.slots? = some [⟨"a", false⟩, ⟨"b", false⟩] := rfl
  obtain ⟨-, result, recipe, makes, runs⟩ := arguments_agree compiled call resolved declared nofun
    swappedFields_fits
  have place : (none, pairRecord) ∈ reached none compilation.root := by
    rw [own]
    exact Inference.mem_reached_of_visited (Inference.self_mem_reached none _) List.mem_cons_self
  obtain ⟨type, dependencies, constructor_, none⟩ := makes _ _ _ _ rfl place
  obtain rfl := List.length_eq_zero_iff.1 none
  refine ⟨compilation, _, result, compiled, recipe, ⟨type, constructor_⟩,
    fun limits evaluate machine type => ?_⟩
  obtain ⟨-, constructs, -⟩ := runs [.string "x", .string "y"] rfl [] limits evaluate
  obtain ⟨received, passes, follows⟩ := constructs [] (Nat.le_refl 0)
  have values : received = [.string "y", .string "x"] :=
    List.map_injective_iff.2 (Option.some_injective Value) passes
  subst values
  exact follows machine type

/-- A native function, called with its arguments in another order. -/
def swappedNative : Node :=
  .mk 0 (.program
    [.mk 1 (.namespaceDecl "String"
      [.mk 2 (.functionDecl "concat" []
        [.mk 3 (.parameter "a" (.mk 4 (.typeName "String" [])) none),
          .mk 5 (.parameter "b" (.mk 6 (.typeName "String" [])) none)]
        (.mk 7 (.typeName "String" [])) [])]),
      .mk 8 (.variableDecl "joined" none (some (.mk 9 (.call
        (.mk 10 (.member (.mk 11 (.identifier "String")) "concat"))
        [.mk 12 (.argument (some "b") (.mk 13 (.literal (.string "x")))),
          .mk 14 (.argument (some "a") (.mk 15 (.literal (.string "y"))))]))))])

/-- The native function gets the values as they are written, not as they fill its slots. -/
theorem swappedNative_joined :
    ((ofTree {} swappedNative none {}).1.toOption.bind fun compilation =>
      (compilation.evaluator.evaluate 8 compilation.start).1.toOption.bind Value.text?) =
        some "xy" ∧
    align [⟨"a", false⟩, ⟨"b", false⟩] [(some "b", "x"), (some "a", "y")] =
      .ok [some "y", some "x"] := by
  decide +kernel

/-- A native function of an array and a position, called with its arguments in another order. -/
def swappedAccess : Node :=
  .mk 0 (.program
    [.mk 1 (.recordDecl "Number" [] []),
      .mk 2 (.recordDecl "Array" [.mk 3 (.genericParameter "Element")] []),
      .mk 4 (.namespaceDecl "Array"
        [.mk 5 (.functionDecl "at" [.mk 6 (.genericParameter "Element")]
          [.mk 7 (.parameter "array"
              (.mk 8 (.typeName "Array" [.mk 9 (.typeName "Element" [])])) none),
            .mk 10 (.parameter "index" (.mk 11 (.typeName "Number" [])) none)]
          (.mk 12 (.typeName "Element" [])) [])]),
      .mk 13 (.variableDecl "item" none (some (.mk 14 (.call
        (.mk 15 (.member (.mk 16 (.identifier "Array")) "at"))
        [.mk 17 (.argument (some "index") (.mk 18 (.literal (.number 0)))),
          .mk 19 (.argument (some "array")
            (.mk 20 (.array [.mk 21 (.literal (.string "x"))])))]))))])

/-- Nothing is wrong with its names and types, but the native function refuses the values. -/
theorem swappedAccess_refused :
    (ofTree {} swappedAccess none {}).2.all.reports.isEmpty = true ∧
    ((ofTree {} swappedAccess none {}).1.toOption.map fun compilation =>
      match (compilation.evaluator.evaluate 13 compilation.start).1 with
      | .error (.invalidBuiltinArguments path) => path
      | _ => "") = some "Array.at" := by
  decide +kernel

end Compilation

end DeclLang
