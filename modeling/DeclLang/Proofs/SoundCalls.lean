import DeclLang.Proofs.SoundSteps

/-!
# Calls that respect types

**Input.**  A checked program, and evaluation that respects types.

**Argument.**  What a callee fits says what can be called: a native function that takes such
arguments, a function value whose declaration takes them, or a constructor, whose values nobody looks
into.  Where the callee refers to a function, the value is one of that function, so both sides align
the arguments to the same slots; elsewhere the arguments are plain.

**Results.**
* `Call.callClosure_sound`: the body of a function value starts with what can stand in its
  parameters, and the call gives what the type of the function says.
* `Call.callValue_sound`: so does a call of whatever stands at the callee.
-/

namespace DeclLang

open Inference (reached isPolymorphic receivedArguments)

namespace Call

variable {compilation : Compilation} (checked : compilation.Checked) {limits : Limits}
  {evaluate : NodeId → Eval Value} (evaluates : compilation.Evaluates evaluate)
  {made : Array Closure}

/-- That slots receive nothing is not about types. -/
theorem receive_outcome (slots : List (String × Option Value)) (entries : Arguments) :
    Outcome (fun values => receive slots entries = .ok values) (receive slots entries) := by
  cases outcome : receive slots entries with
  | error error => obtain ⟨_, rfl⟩ | ⟨_, rfl⟩ := receive_error_cases outcome <;> exact not_false
  | ok values => rfl

include checked

section Closures

variable {closure : Closure} (typed : closure.Typed compilation made)
  {received : List (Option String × StaticType)} {returned : StaticType}
  (declared : compilation.typing.declarations[closure.declaration.id]? =
    some (.function received returned))

include typed declared

/-- A body that ends without a `return` is of a function whose result nobody looks into. -/
theorem result_fits {flow : Flow}
    (ends : flow.Ends compilation (compilation.erased returned)
      (∃ statement ∈ bodyOf closure.declaration, statement.isReturn = true) made) :
    compilation.Fits made flow.result (compilation.erased returned) := by
  obtain ⟨_, place⟩ := typed.place
  cases flow with
  | returned value => exact ends.fits value rfl
  | next pending =>
    have signed : compilation.signature? closure.declaration =
        some (received.map Prod.snd, returned) := by
      rw [Compilation.signature?, declared]
    rcases (checked.disciplined.foreign (Inference.mem_preorder_of_mem_reached place)
      typed.function typed.foreign signed).2 with nominal | certain
    · exact .any (StaticType.isOpaque_of_isNominal Compilation.erased_constant nominal)
    · obtain ⟨_, same⟩ := ends.returns certain
      cases same

include evaluates in
/-- A call of a function value gives what its type says, if what fills its slots fits what the type
takes. -/
theorem callClosure_sound {entries : Arguments}
    (fills : ∀ filled values, align (slotsOf closure.slots) entries = .ok filled →
      List.Forall₂ (fun entry value => offer entry = some value) (closure.slots.zip filled) values →
        compilation.Fills made filled (compilation.taken received)) :
    compilation.Sound made
      (callClosure compilation.evaluator.plan limits evaluate closure entries) fun later value =>
        compilation.Fits later value (compilation.erased returned) := by
  rw [callClosure_eq]
  obtain ⟨function?, place⟩ := typed.place
  have inside : ∀ statement ∈ bodyOf closure.declaration,
      (some closure.declaration, statement) ∈ reached none compilation.root := by
    obtain ⟨name, generics, parameters, result, body, kind⟩ := typed.function
    intro statement among
    rw [bodyOf, kind] at among
    have child : statement ∈ Inference.visited closure.declaration := by
      rw [Inference.visited, Inference.passesOver, kind, Node.children, kind]
      exact List.mem_append_right _ (List.mem_cons_of_mem _ among)
    have below := Inference.mem_reached_of_visited place child
    rwa [Inference.functionBelow, kind] at below
  refine (Compilation.Sound.ofExcept fun _ _ => receive_outcome _ _).bind
    fun later values grown outcome => ?_
  obtain ⟨filled, aligned, offered⟩ := receive_ok outcome
  have frame : (closure.frame compilation.evaluator.plan values).Typed compilation made :=
    (typed.base.copy.forget _).addValues (typed.admits_received checked declared
      (fills filled values aligned offered) offered)
  have runs : compilation.Sound later (Statement.executeBlock compilation.evaluator.plan limits
      evaluate (bodyOf closure.declaration) []) (Flow.Ends compilation (compilation.erased returned)
        (∃ statement ∈ bodyOf closure.declaration, statement.isReturn = true)) :=
    Statement.executeBlock_sound_of (fun statement among _ pending =>
      Statement.execute_sound checked evaluates declared (inside statement among) pending) []
  exact (runs.within (frame.grow grown)).bind fun last result grown' both =>
    .pure fun final goesOn =>
      (result_fits checked (typed.grow (grown.trans grown')) declared both.1).grow goesOn

end Closures

section Calls

variable {function? : Option Node} {node callee : Node} {arguments : List Node}
  (mem : (function?, node) ∈ reached none compilation.root)
  (kind : node.kind = .call callee arguments) {entries : Arguments}
  {slots : List (Option String × StaticType)}

include mem kind

include evaluates in
/-- A function value is called with what its declaration takes. -/
theorem callClosure_typed {closure : Closure} (typed : closure.Typed compilation made)
    {serial : Nat} (found : made[serial]? = some closure) {type : StaticType} {name : String}
    {id : NodeId} (admits : compilation.Admits made callee.id (.mk type (.closure name id serial)))
    (written : compilation.Written made arguments entries)
    (receives : List.Forall₂ compilation.judgment.Receives
      (receivedArguments compilation.environment callee arguments) slots)
    {declared result : StaticType}
    (stored : compilation.typing.declarations[closure.declaration.id]? = some declared)
    (agrees : compilation.erased declared = compilation.erased (.function slots result)) :
    compilation.Sound made
      (callClosure compilation.evaluator.plan limits evaluate closure entries) fun later value =>
        compilation.Fits later value (compilation.erased result) := by
  have inside := Inference.mem_preorder_of_mem_reached mem
  obtain ⟨_, place⟩ := typed.place
  obtain ⟨received, returned, rfl⟩ : ∃ received returned, declared = .function received returned := by
    have suitable := (checked.suitable _ (Inference.mem_preorder_of_mem_reached place) _ stored).1
    obtain ⟨_, _, _, _, _, isFunction⟩ := typed.function
    rw [Inference.DeclaredAs, isFunction] at suitable
    obtain ⟨received, returned, same, -⟩ := suitable
    exact ⟨received, returned, same⟩
  rw [Compilation.erased_function, Compilation.erased_function] at agrees
  obtain ⟨parameters, results⟩ := StaticType.function.inj agrees
  have taken : compilation.taken received = compilation.taken slots := by
    have types := congrArg (List.map Prod.snd) parameters
    rwa [List.map_map, List.map_map] at types
  rw [← results]
  refine callClosure_sound checked evaluates typed stored fun filled values aligned offered => ?_
  rw [taken]
  by_cases direct : ∃ declaration,
      compilation.environment.declaration? callee.id = some declaration ∧
        isPolymorphic declaration = true
  · obtain ⟨declaration, refers, polymorphic⟩ := direct
    cases admits.represents declaration (.inr refers) polymorphic with
    | closure function foreign found' own =>
      cases found.symm.trans found'
      subst own
      obtain ⟨_, _, _, _, _, isFunction⟩ := function
      have named : closure.declaration.slots?.isSome := by rw [Node.slots?, isFunction]; rfl
      obtain ⟨own, slotted⟩ := Option.isSome_iff_exists.1 named
      have same : slotsOf closure.slots = own :=
        typed.faithful.slots slotted fun parameter mem => by
          obtain ⟨_, _, _, own⟩ :=
            checked.isParameter (Inference.mem_preorder_of_mem_reached place) parameter mem
          rw [Node.parameterSlot?, own]
          rfl
      exact Compilation.filled_slots written refers slotted (same ▸ aligned)
        (same ▸ complete_of_offered offered) receives
  · have required : ∀ declaration,
        compilation.environment.declaration? callee.id = some declaration →
          ∀ slots, declaration.slots? = some slots → ∀ slot ∈ slots, slot.hasDefault = false :=
      fun declaration refers slots slotted =>
        absurd ⟨declaration, refers, Inference.isPolymorphic_of_slots? slotted⟩ direct
    have plain : ∀ argument ∈ arguments, argument.isPlainArgument = true := by
      rcases checked.disciplined.call inside kind with ⟨declaration, refers, polymorphic, -⟩ | plain
      · exact absurd ⟨declaration, refers, polymorphic⟩ direct
      · exact plain
    obtain ⟨values, rfl, fit⟩ := Compilation.plain_values written plain
      (Compilation.plain_received plain required receives)
    refine Compilation.filled_positional fit ?_ aligned
    rw [← taken, Compilation.taken, List.length_map, slotsOf, Closure.slots, List.length_map,
      List.length_map]
    exact (typed.takes checked stored).length_eq

/-- A native function gets plain arguments, of the types that it takes. -/
theorem native_values {type : StaticType} {path : String}
    (admits : compilation.Admits made callee.id (.mk type (.builtin path)))
    (written : compilation.Written made arguments entries)
    (receives : List.Forall₂ compilation.judgment.Receives
      (receivedArguments compilation.environment callee arguments) slots) :
    List.Forall₂ (compilation.Fits made) (entries.filterMap Prod.snd)
      (compilation.taken slots) := by
  have inside := Inference.mem_preorder_of_mem_reached mem
  have plain : ∀ argument ∈ arguments, argument.isPlainArgument = true := by
    rcases checked.disciplined.call inside kind with ⟨declaration, refers, polymorphic, foreign⟩ | plain
    · cases admits.represents declaration (.inr refers) polymorphic with
      | native _ native =>
        rw [foreign] at native
        cases native
    · exact plain
  have required : ∀ declaration,
      compilation.environment.declaration? callee.id = some declaration →
        ∀ slots, declaration.slots? = some slots → ∀ slot ∈ slots, slot.hasDefault = false := by
    intro declaration refers slots slotted slot among
    cases admits.represents declaration (.inr refers) (Inference.isPolymorphic_of_slots? slotted) with
    | native function native =>
      have found := (Option.bind_eq_some_iff.1 refers).choose_spec.2
      have none := (checked.disciplined.native
        (NodeIndex.mem_of_get? checked.built found).1 function native).1
      obtain ⟨_, _, parameters, _, _, isFunction⟩ := function
      rw [Node.slots?, isFunction] at slotted
      cases slotted
      obtain ⟨parameter, mem, own⟩ := List.mem_filterMap.1 among
      rw [Call.parametersOf, isFunction] at none
      have empty := none _ (List.mem_map_of_mem mem)
      rwa [own] at empty
  obtain ⟨values, rfl, fit⟩ := Compilation.plain_values written plain
    (Compilation.plain_received plain required receives)
  have handed : (values.map fun value => ((none : Option String), some value)).filterMap Prod.snd =
      values := by
    rw [List.filterMap_map]
    exact List.filterMap_some
  rwa [handed]

include evaluates in
/-- A call gives what the type of the call says, or fails for another reason. -/
theorem callValue_sound {own : StaticType}
    (known : compilation.typing.nodes[node.id]? = some own) {value : Value}
    (admits : compilation.Admits made callee.id value)
    (written : compilation.Written made arguments entries) (id : NodeId) (type : StaticType) :
    compilation.Sound made
      (callValue compilation.evaluator.plan limits evaluate id value entries type)
        fun later result => compilation.Fits later result (compilation.erased own) := by
  have isTyped : Inference.isTyped node = true := by rw [Inference.isTyped, kind]
  have rule := checked.rule mem isTyped known
  rw [Judgment.Rule, kind] at rule
  obtain ⟨slots, result, same, called, receives⟩ := rule
  have same : compilation.erased own = compilation.erased result := same
  have operand : callee ∈ node.operands := by
    rw [Node.operands, kind]
    exact List.mem_cons_self
  have fits := admits.fits checked mem operand called
  rw [Compilation.erased_function] at fits
  rw [same]
  unfold callValue
  cases fits with
  | any h => cases h
  | native takes =>
    rw [List.map_map] at takes
    have fit := native_values checked mem kind admits written receives
    exact .ofExcept fun later grown => Builtin.call_fits takes (fit.imp fun _ _ h => h.grow grown)
  | closure signed =>
    refine Compilation.Sound.get.bind fun later machine grown given => ?_
    obtain ⟨typed, closures⟩ := given
    obtain ⟨closure, found, declared, stored, agrees⟩ := signed
    have found := grown _ _ found
    subst closures
    rw [found]
    exact callClosure_typed checked evaluates mem kind
      (typed.closures closure (Array.mem_of_getElem? found)) found (admits.grow grown)
      (written.grow grown) receives stored (agrees.trans (Compilation.erased_function slots result).symm)
  | recordConstructor nominal =>
    exact (Compilation.Sound.ofExcept fun _ _ => receive_outcome _ _).bind
      fun _ _ _ _ => .pure fun _ _ => .any nominal
  | caseConstructor nominal => exact .pure fun _ _ => .any nominal

end Calls

end Call

end DeclLang
