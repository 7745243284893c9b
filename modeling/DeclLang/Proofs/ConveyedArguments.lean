import DeclLang.Proofs.AdmittedValues
import DeclLang.Proofs.MissingArguments
import DeclLang.Proofs.Omissions
import DeclLang.Proofs.ValueErrors

/-!
# Arguments as types see them and as calls see them

**Input.**  A call in a checked program, and values that can stand where its arguments stand.

**Judgment.**  `Compilation.Conveys`: what a call has in the place of an argument fits whatever type
the argument has, and only a placeholder has nothing there.

**Argument.**  Types and calls align the same arguments to slots, the ones as nodes and the others
as values; alignment does not look at what it puts into slots (`align_related`).  If a function
value receives something in every slot, inference has found the arguments complete as well.  Plain
arguments go to the slots in order on both sides.

**Results.**
* `Compilation.filled_slots` and `Compilation.plain_values`: what goes to a slot fits the type that
  the callee takes there.
* `Compilation.admits_received`: what the parameters of a function value receive can stand there.
-/

namespace DeclLang

open Inference (reached labeledArgument receivedArguments)

section Alignment

variable {α β γ : Type} {slots : List Slot}

theorem exists_paired {R : α → β → Prop} {arguments : List (Option String × α)}
    {others : List (Option String × β)}
    (related : List.Forall₂ (fun argument other => argument.1 = other.1 ∧ R argument.2 other.2)
      arguments others) :
    ∃ pairs : List (Option String × α × β),
      arguments = pairs.map (fun pair => (pair.1, pair.2.1)) ∧
      others = pairs.map (fun pair => (pair.1, pair.2.2)) ∧ ∀ pair ∈ pairs, R pair.2.1 pair.2.2 := by
  induction related with
  | nil => exact ⟨[], rfl, rfl, nofun⟩
  | @cons argument other arguments others first _ ih =>
    obtain ⟨pairs, rfl, rfl, each⟩ := ih
    obtain ⟨label?, a⟩ := argument
    obtain ⟨_, b⟩ := other
    obtain ⟨rfl, own⟩ := first
    exact ⟨(label?, a, b) :: pairs, rfl, rfl, List.forall_mem_cons.2 ⟨own, each⟩⟩

/-- Arguments that are related one by one go to the same slots. -/
theorem align_related {R : α → β → Prop} {arguments : List (Option String × α)}
    {others : List (Option String × β)}
    (related : List.Forall₂ (fun argument other => argument.1 = other.1 ∧ R argument.2 other.2)
      arguments others)
    {filled : List (Option α)} (aligned : align slots arguments = .ok filled) :
    ∃ filled', align slots others = .ok filled' ∧
      List.Forall₂ (Option.Rel R) filled filled' := by
  obtain ⟨pairs, rfl, rfl, each⟩ := exists_paired related
  rw [align_map Prod.fst slots pairs] at aligned
  rw [align_map Prod.snd slots pairs]
  cases both : align slots pairs with
  | error error =>
    rw [both] at aligned
    cases aligned
  | ok entries =>
    rw [both] at aligned
    cases aligned
    refine ⟨_, rfl, ?_⟩
    rw [List.forall₂_map_left_iff, List.forall₂_map_right_iff, List.forall₂_same]
    rintro (_ | ⟨a, b⟩) mem
    · exact .none
    · obtain ⟨pair, inside, same⟩ := List.mem_map.1 (align_from both mem)
      have own := each pair inside
      rw [same] at own
      exact .some own

/-- What an item is zipped with, a related item is zipped with as well. -/
theorem exists_mem_zip {R : α → β → Prop} {items : List α} {others : List β}
    (related : List.Forall₂ R items others) {more : List γ} {other : β} {c : γ}
    (mem : (other, c) ∈ others.zip more) : ∃ item, (item, c) ∈ items.zip more ∧ R item other := by
  induction related generalizing more with
  | nil => cases mem
  | @cons item first items others own _ ih =>
    cases more with
    | nil => cases mem
    | cons head more =>
      rcases List.mem_cons.1 mem with same | mem
      · cases same
        exact ⟨item, List.mem_cons_self, own⟩
      · obtain ⟨item, inside, own⟩ := ih mem
        exact ⟨item, List.mem_cons_of_mem _ inside, own⟩

end Alignment

/-- Steps that all succeed give a result each. -/
theorem forall₂_of_mapM {ε α β : Type} {f : α → Except ε β} {items : List α} {results : List β}
    (ran : items.mapM f = .ok results) :
    List.Forall₂ (fun item result => f item = .ok result) items results := by
  induction items generalizing results with
  | nil =>
    cases ran
    exact .nil
  | cons item items ih =>
    rw [List.mapM_cons] at ran
    cases first : f item with
    | error error =>
      rw [first] at ran
      cases ran
    | ok result =>
      cases later : items.mapM f with
      | error error =>
        rw [first, later] at ran
        cases ran
      | ok rest =>
        rw [first, later] at ran
        cases ran
        exact .cons first (ih later)

/-- Slots that all receive something are filled, or have a default. -/
theorem Call.receive_ok {slots : List (String × Option Value)} {arguments : Arguments}
    {values : List Value} (received : receive slots arguments = .ok values) :
    ∃ filled, align (slotsOf slots) arguments = .ok filled ∧
      List.Forall₂ (fun entry value => offer entry = some value) (slots.zip filled) values := by
  cases aligned : align (slotsOf slots) arguments with
  | error error =>
    unfold slotsOf at aligned
    unfold receive at received
    rw [aligned] at received
    cases received
  | ok filled =>
    rw [receive_of_align aligned] at received
    refine ⟨filled, rfl, (forall₂_of_mapM received).imp fun entry value taken => ?_⟩
    unfold take at taken
    split at taken
    · cases taken
      assumption
    · cases taken

/-- Slots that all receive something are filled or have a default. -/
theorem Call.complete_of_offered {slots : List (String × Option Value)}
    {filled : List (Option (Option Value))} {values : List Value}
    (offered : List.Forall₂ (fun entry value => offer entry = some value) (slots.zip filled)
      values) :
    ∀ pair ∈ filled.zip (slotsOf slots),
      (Option.join pair.1).isSome = true ∨ pair.2.hasDefault = true := by
  have each : ∀ entry ∈ slots.zip filled, (offer entry).isSome :=
    ((List.forall₂_and_left _ _).1 (offered.imp fun entry value same =>
      ⟨Option.isSome_iff_exists.2 ⟨value, same⟩, same⟩)).1
  rw [slotsOf, List.zip_map_right, ← List.zip_swap, List.map_map]
  rintro _ mem
  obtain ⟨entry, inside, rfl⟩ := List.mem_map.1 mem
  have taken := each entry inside
  rw [offer, Option.isSome_or, Bool.or_eq_true] at taken
  exact taken

/-- Types and calls read the same label. -/
theorem Registration.labeledExpression_fst (argument : Node) :
    (labeledExpression argument).1 = (labeledArgument argument).1 := by
  obtain ⟨id, kind⟩ := argument
  cases kind <;> rfl

namespace Compilation

variable (compilation : Compilation) (made : Array Closure)

/-- What a call has in the place of an argument fits the type of the argument, and it has something
there unless that is a placeholder. -/
structure Conveys (given : Option Value) (argument : Node) : Prop where
  fits : ∀ value, given = some value → ∀ type, compilation.judgment.HasType argument type →
    compilation.Fits made value (compilation.erased type)
  present : argument.isPlainArgument = true → given.isSome = true

/-- The entries of a call convey its arguments. -/
def Written (arguments : List Node) (entries : Arguments) : Prop :=
  List.Forall₂ (fun entry argument => entry.1 = argument.1 ∧
    compilation.Conveys made entry.2 argument.2) entries (arguments.map labeledArgument)

/-- What goes to slots fits types, one for each slot. -/
def Fills (filled : List (Option (Option Value))) (types : List StaticType) : Prop :=
  List.Forall₂ (fun given type => ∀ value, Option.join given = some value →
    compilation.Fits made value type) filled types

/-- The solved types of what a function takes. -/
def taken (slots : List (Option String × StaticType)) : List StaticType :=
  slots.map fun slot => compilation.erased slot.2

variable {compilation made}

section Growth

variable {later : Array Closure} (grown : Grown made later)

include grown

theorem Conveys.grow {given : Option Value} {argument : Node}
    (conveys : compilation.Conveys made given argument) : compilation.Conveys later given argument :=
  ⟨fun value same type hasType => (conveys.fits value same type hasType).grow grown, conveys.present⟩

theorem Written.grow {arguments : List Node} {entries : Arguments}
    (written : compilation.Written made arguments entries) :
    compilation.Written later arguments entries :=
  written.imp fun _ _ ⟨label, conveys⟩ => ⟨label, conveys.grow grown⟩

end Growth

section Checked

variable (checked : compilation.Checked)

include checked

/-- A value for the expression of an argument fits the type of the argument. -/
theorem fits_argument {place : Option Node × Node} (mem : place ∈ reached none compilation.root)
    {argument : Node} (among : argument ∈ place.2.operands) {value : Value}
    (admits : compilation.Admits made (Registration.labeledExpression argument).2.id value)
    {type : StaticType} (hasType : compilation.judgment.HasType argument type) :
    compilation.Fits made value (compilation.erased type) := by
  by_cases written : ∃ label? expression, argument.kind = .argument label? expression
  · obtain ⟨label?, expression, kind⟩ := written
    have below := Inference.mem_reached_of_visited mem (Node.mem_visited_of_mem_operands among)
    have typed : Inference.isTyped argument = true := by rw [Inference.isTyped, kind]
    have operand : expression ∈ argument.operands := by
      rw [Node.operands, kind]
      exact List.mem_cons_self
    rw [Registration.labeledExpression, kind] at admits
    obtain ⟨own, known, same⟩ := hasType
    have rule := checked.rule below typed known
    rw [Judgment.Rule, kind] at rule
    have same : compilation.erased own = compilation.erased type := same
    exact same ▸ admits.fits checked below operand rule
  · have plain : (Registration.labeledExpression argument).2 = argument := by
      unfold Registration.labeledExpression
      split
      · rename_i label? expression kind
        exact absurd ⟨label?, expression, kind⟩ written
      · rfl
    rw [plain] at admits
    exact admits.fits checked mem among hasType

/-- Values of the expressions of a call are distributed to its arguments. -/
theorem written_distribute {place : Option Node × Node}
    (mem : place ∈ reached none compilation.root) {arguments : List Node}
    (among : ∀ argument ∈ arguments, argument ∈ place.2.operands) {values : List Value}
    (admits : List.Forall₂ (compilation.Admits made)
      (((arguments.map Registration.labeledExpression).filter fun argument =>
        !Registration.isPlaceholder argument.2).map fun argument => argument.2.id) values) :
    compilation.Written made arguments (Call.distribute (Call.written arguments) values) := by
  induction arguments generalizing values with
  | nil => exact .nil
  | cons argument arguments ih =>
    have others := fun other mem => among other (List.mem_cons_of_mem _ mem)
    have shape : Call.written (argument :: arguments) =
        ((Registration.labeledExpression argument).1,
          !Registration.isPlaceholder (Registration.labeledExpression argument).2) ::
            Call.written arguments := rfl
    rw [shape]
    cases placeholder : Registration.isPlaceholder (Registration.labeledExpression argument).2 with
    | true =>
      rw [List.map_cons, List.filter_cons_of_neg (by simp [placeholder])] at admits
      refine .cons ⟨Registration.labeledExpression_fst argument, nofun, fun plain => ?_⟩
        (ih others admits)
      rw [Inference.labeledArgument_snd, Node.isPlainArgument, placeholder] at plain
      simp at plain
    | false =>
      rw [List.map_cons, List.filter_cons_of_pos (by simp [placeholder]), List.map_cons] at admits
      cases admits with
      | @cons _ value _ values first rest =>
        refine .cons ⟨Registration.labeledExpression_fst argument,
          fun other same type hasType => ?_, fun _ => rfl⟩ (ih others rest)
        cases same
        rw [Inference.labeledArgument_snd] at hasType
        exact fits_argument checked mem (among argument List.mem_cons_self) first hasType

end Checked

section Calls

variable {callee : Node} {arguments : List Node} {entries : Arguments}
  {types : List (Option String × StaticType)}

/-- What slots receive is known without their names. -/
theorem receives_nodes {names : List (Option String)} {nodes : List (Option Node)}
    (length : nodes.length = names.length)
    (receives : List.Forall₂ compilation.judgment.Receives (names.zip nodes) types) :
    List.Forall₂ (fun node? type => ∀ argument, node? = some argument →
      compilation.judgment.HasType argument type.2) nodes types := by
  rw [← List.map_snd_zip (Nat.le_of_eq length), List.forall₂_map_left_iff]
  exact receives.imp fun _ _ received => received.2

/-- Arguments that fill slots fit the types that the callee takes there. -/
theorem fills_of_related {filled : List (Option (Option Value))} {nodes : List (Option Node)}
    (related : List.Forall₂ (Option.Rel (compilation.Conveys made)) filled nodes)
    (typed : List.Forall₂ (fun node? (type : Option String × StaticType) => ∀ argument,
      node? = some argument → compilation.judgment.HasType argument type.2) nodes types) :
    compilation.Fills made filled (compilation.taken types) := by
  induction related generalizing types with
  | nil =>
    cases typed
    exact .nil
  | @cons given node? filled nodes own _ ih =>
    cases typed with
    | cons first rest =>
      refine .cons (fun value joined => ?_) (ih rest)
      cases own with
      | none => cases joined
      | some conveys => exact conveys.fits value joined _ (first _ rfl)

/-- Slots that all have something to receive are filled with what fits. -/
theorem filled_slots (conveyed : compilation.Written made arguments entries) {declaration : Node}
    (refers : compilation.environment.declaration? callee.id = some declaration)
    {slots : List Slot} (slotted : declaration.slots? = some slots)
    {filled : List (Option (Option Value))} (aligned : align slots entries = .ok filled)
    (complete : ∀ pair ∈ filled.zip slots, pair.1.join.isSome = true ∨ pair.2.hasDefault = true)
    (receives : List.Forall₂ compilation.judgment.Receives
      (receivedArguments compilation.environment callee arguments) types) :
    compilation.Fills made filled (compilation.taken types) := by
  obtain ⟨nodes, found, related⟩ := align_related conveyed aligned
  have all : (nodes.zip slots).all (fun pair => pair.1.isSome || pair.2.hasDefault) = true := by
    rw [List.all_eq_true]
    rintro ⟨node?, slot⟩ mem
    obtain ⟨given, inside, own⟩ := exists_mem_zip related mem
    cases own with
    | none => exact (complete _ inside).resolve_left nofun
    | some => rfl
  have received : receivedArguments compilation.environment callee arguments =
      (slots.map fun slot => some slot.name).zip nodes := by
    unfold receivedArguments Inference.slotted?
    rw [refers]
    dsimp only [Option.bind_some]
    rw [slotted, Option.bind_some, found]
    dsimp only
    rw [if_pos all, Option.getD_some]
  rw [received] at receives
  have length : nodes.length = (slots.map fun slot => some slot.name).length := by
    rw [List.length_map, align_length found]
  exact fills_of_related related (receives_nodes length receives)

/-- Plain arguments are received in order, if the callee has no slots or slots without defaults. -/
theorem plain_received (plain : ∀ argument ∈ arguments, argument.isPlainArgument = true)
    (required : ∀ declaration, compilation.environment.declaration? callee.id = some declaration →
      ∀ slots, declaration.slots? = some slots → ∀ slot ∈ slots, slot.hasDefault = false)
    (receives : List.Forall₂ compilation.judgment.Receives
      (receivedArguments compilation.environment callee arguments) types) :
    List.Forall₂ (fun argument type => compilation.judgment.HasType argument type.2) arguments
      types := by
  have unlabeled : arguments.map labeledArgument = arguments.map fun argument => (none, argument) :=
    List.map_congr_left fun argument mem => by
      have own := plain argument mem
      rw [Node.isPlainArgument, Bool.and_eq_true, Option.isNone_iff_eq_none,
        Registration.labeledExpression_fst] at own
      exact Prod.ext own.1 (Inference.labeledArgument_snd argument)
  unfold receivedArguments at receives
  dsimp only at receives
  cases given : ((compilation.environment.declaration? callee.id).bind Node.slots?).bind
      fun slots => Inference.slotted? slots arguments with
  | none =>
    rw [given, Option.getD_none, unlabeled, List.map_map, List.forall₂_map_left_iff] at receives
    exact receives.imp fun argument type received => received.2 argument rfl
  | some received =>
    rw [given, Option.getD_some] at receives
    obtain ⟨slots, found, complete⟩ := Option.bind_eq_some_iff.1 given
    obtain ⟨declaration, refers, named⟩ := Option.bind_eq_some_iff.1 found
    unfold Inference.slotted? at complete
    cases aligned : align slots (arguments.map labeledArgument) with
    | error error =>
      rw [aligned] at complete
      cases complete
    | ok nodes =>
      rw [aligned] at complete
      dsimp only at complete
      have length := align_length aligned
      split at complete
      · rename_i all
        cases complete
        -- Without defaults no slot stays empty, so there are as many arguments as slots.
        have full : none ∉ nodes := by
          intro empty
          obtain ⟨position, here⟩ := List.mem_iff_getElem?.1 empty
          obtain ⟨bound, -⟩ := List.getElem?_eq_some_iff.1 here
          have there := List.getElem?_eq_getElem (length ▸ bound)
          have pair := List.all_eq_true.1 all (none, _) (List.mem_iff_getElem?.2
            ⟨position, List.getElem?_zip_eq_some.2 ⟨here, there⟩⟩)
          rw [required declaration refers slots named _ (List.getElem_mem _)] at pair
          cases pair
        have counted := (align_ends slots (arguments.map labeledArgument))
        rw [aligned] at counted
        have count := counted.count_eq
        rw [countP_isSome_empty, Nat.zero_add, List.length_map, List.countP_eq_length.2 fun node? mem =>
          Option.isSome_iff_ne_none.2 fun same => full (same ▸ mem), length] at count
        rw [unlabeled, align_positional count] at aligned
        cases aligned
        have each := receives_nodes (by rw [List.length_map, List.length_map, count]) receives
        rw [List.forall₂_map_left_iff] at each
        exact each.imp fun argument type typed => typed argument rfl
      · cases complete

/-- Plain arguments are conveyed by values in order. -/
theorem plain_values (conveyed : compilation.Written made arguments entries)
    (plain : ∀ argument ∈ arguments, argument.isPlainArgument = true)
    (typed : List.Forall₂ (fun argument (type : Option String × StaticType) =>
      compilation.judgment.HasType argument type.2) arguments types) :
    ∃ values : List Value, entries = values.map (fun value => (none, some value)) ∧
      List.Forall₂ (compilation.Fits made) values (compilation.taken types) := by
  induction typed generalizing entries with
  | nil =>
    cases conveyed
    exact ⟨[], rfl, .nil⟩
  | @cons argument type arguments types own _ ih =>
    cases conveyed with
    | @cons entry _ entries _ first rest =>
      obtain ⟨values, rfl, fit⟩ := ih rest fun other mem => plain other (List.mem_cons_of_mem _ mem)
      have unmarked := plain argument List.mem_cons_self
      obtain ⟨label?, given⟩ := entry
      obtain ⟨label, conveys⟩ := first
      rw [Inference.labeledArgument_snd] at conveys
      obtain ⟨value, rfl⟩ := Option.isSome_iff_exists.1 (conveys.present unmarked)
      rw [Node.isPlainArgument, Bool.and_eq_true, Option.isNone_iff_eq_none,
        Registration.labeledExpression_fst] at unmarked
      refine ⟨value :: values, ?_, .cons (conveys.fits value rfl _ own) fit⟩
      rw [List.map_cons, ← unmarked.1]
      exact congrArg (fun label => (label, some value) :: _) label

/-- Values in order fill as many slots. -/
theorem filled_positional {slots : List Slot} {values : List Value}
    {sorts : List StaticType} (fit : List.Forall₂ (compilation.Fits made) values sorts)
    (length : slots.length = sorts.length) {filled : List (Option (Option Value))}
    (aligned : align slots (values.map fun value => (none, some value)) = .ok filled) :
    compilation.Fills made filled sorts := by
  have count : slots.length = (values.map (some : Value → Option Value)).length := by
    rw [List.length_map, length, fit.length_eq]
  have positional := align_positional count
  rw [List.map_map] at positional
  cases aligned.symm.trans positional
  rw [Fills, List.map_map, List.forall₂_map_left_iff]
  refine fit.imp fun value type own other same => ?_
  cases same
  exact own

end Calls

end Compilation

section Functions

variable {compilation : Compilation} {made : Array Closure} {closure : Closure}

/-- Everything between the parentheses of a function is a parameter. -/
theorem Compilation.Checked.isParameter (checked : compilation.Checked) {declaration : Node}
    (inside : declaration ∈ compilation.root.preorder) :
    ∀ parameter ∈ Call.parametersOf declaration, parameter.1.IsParameter := by
  intro parameter mem
  obtain ⟨id, kind⟩ := declaration
  cases kind with
  | functionDecl name generics parameters result body =>
    obtain ⟨own, among, rfl⟩ := List.mem_map.1 mem
    exact checked.disciplined.regular.parameters _ inside name generics parameters result body rfl
      own among
  | _ => cases mem

variable (typed : closure.Typed compilation made)

include typed

/-- A function value without anything that is not what types say is made as the program says. -/
theorem Closure.Typed.faithful : closure.Faithful compilation where
  base id thunk found :=
    (typed.base.thunks id thunk found).imp_right fun ⟨error, same, _⟩ => ⟨error, same⟩
  parameters := typed.parameters
  function := typed.function
  place := typed.place

variable (checked : compilation.Checked) {received : List (Option String × StaticType)}
  {returned : StaticType}
  (declared : compilation.typing.declarations[closure.declaration.id]? =
    some (.function received returned))

include checked declared

/-- The type of a function says what its parameters take. -/
theorem Closure.Typed.takes : List.Forall₂ (fun parameter (slot : Option String × StaticType) =>
    parameter.1 ∈ compilation.root.preorder ∧ parameter.1.holdsValue = true ∧
      compilation.typing.declarations[parameter.1.id]? = some slot.2) closure.parameters received := by
  obtain ⟨_, place⟩ := typed.place
  have inside := Inference.mem_preorder_of_mem_reached place
  obtain ⟨name, generics, parameters, result, body, kind⟩ := typed.function
  obtain ⟨_, _, same, linked⟩ :=
    checked.linked _ inside name generics parameters result body kind _ declared
  cases same
  have same : closure.parameters.map Prod.fst = parameters := by
    have both := congrArg (List.map Prod.fst) typed.parameters
    rwa [Call.parametersOf, kind, List.map_map, List.map_map, Function.comp_def, Function.comp_def,
      List.map_id'] at both
  rw [← same, List.forall₂_map_left_iff] at linked
  refine forall₂_imp_of_mem linked fun parameter mem slot stored => ?_
  have among : parameter.1 ∈ parameters := same ▸ List.mem_map_of_mem mem
  have child : parameter.1 ∈ closure.declaration.children := by
    rw [Node.children, kind]
    exact List.mem_append_left _ (List.mem_append_right _ among)
  obtain ⟨_, _, _, own⟩ :=
    checked.isParameter inside _ (typed.parameters ▸ List.mem_map_of_mem mem)
  refine ⟨Node.mem_preorder_trans inside
    (Node.mem_preorder_of_mem_children child (Node.self_mem_preorder _)), ?_, stored⟩
  rw [Node.holdsValue, own]

/-- What the parameters of a function value receive can stand there. -/
theorem Closure.Typed.admits_received {filled : List (Option (Option Value))}
    (fills : compilation.Fills made filled (compilation.taken received)) {values : List Value}
    (offered : List.Forall₂ (fun entry value => Call.offer entry = some value)
      (closure.slots.zip filled) values) :
    ∀ binding ∈ (closure.parameters.map fun parameter => parameter.1.id).zip values,
      compilation.Admits made binding.1 binding.2 := by
  have takes := typed.takes checked declared
  have defaults := typed.defaults
  unfold Closure.slots at offered
  clear declared
  generalize closure.parameters = parameters at takes defaults offered
  induction takes generalizing filled values with
  | nil => nofun
  | @cons parameter slot parameters received own _ ih =>
    cases fills with
    | @cons given _ filled _ fits fills =>
      cases offered with
      | @cons _ value _ values first rest =>
        intro binding mem
        rcases List.mem_cons.1 mem with rfl | mem
        · obtain ⟨inside, holds, stored⟩ := own
          refine Compilation.admits_held checked inside holds fun type known => ?_
          cases stored.symm.trans known
          rcases Option.or_eq_some_iff.1 first with handed | ⟨-, default⟩
          · exact fits value handed
          · exact defaults parameter List.mem_cons_self value default _ stored
        · exact ih fills (fun other inside => defaults other (List.mem_cons_of_mem _ inside)) rest
            binding mem

end Functions

end DeclLang
