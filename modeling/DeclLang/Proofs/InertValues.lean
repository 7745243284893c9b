import DeclLang.Proofs.Alignment
import DeclLang.Proofs.Inquiries

/-!
# Values without functions of the program

A value is inert if no closure is part of it.  Calling an inert value executes no statements.

**Results.**
* `Call.native_inert`: a call of an inert value with inert arguments gives an inert value.
* `Call.callValue_native`: what it gives is what `Call.native` says, and the context stays as it is.
* `Thunk.inquiry_inert`: recipes that need nothing but the values of nodes make inert values of
  inert ones.
-/

namespace DeclLang

namespace Value

mutual

/-- No closure is part of the value. -/
def inert : Value → Bool
  | mk _ content => inertContent content

/-- No closure is part of the content. -/
def inertContent : Content Value → Bool
  | .closure .. => false
  | .array items => inertItems items
  | .enumeration _ data => inertItems data
  | .record fields => inertFields fields
  | .recordConstructor _ fields => inertSlots fields
  | _ => true

/-- No closure is part of any of the values. -/
def inertItems : List Value → Bool
  | [] => true
  | item :: items => inert item && inertItems items

/-- No closure is part of any of the fields. -/
def inertFields : List (String × Value) → Bool
  | [] => true
  | (_, value) :: fields => inert value && inertFields fields

/-- No closure is part of any of the defaults. -/
def inertSlots : List (String × Option Value) → Bool
  | [] => true
  | (_, none) :: slots => inertSlots slots
  | (_, some value) :: slots => inert value && inertSlots slots

end

theorem inertItems_iff {items : List Value} :
    inertItems items = true ↔ ∀ item ∈ items, item.inert = true := by
  induction items with
  | nil => simp [inertItems]
  | cons item items ih => simp [inertItems, ih]

theorem inertFields_iff {fields : List (String × Value)} :
    inertFields fields = true ↔ ∀ field ∈ fields, field.2.inert = true := by
  induction fields with
  | nil => simp [inertFields]
  | cons field fields ih => simp [inertFields, ih]

theorem inertSlots_iff {slots : List (String × Option Value)} :
    inertSlots slots = true ↔
      ∀ slot ∈ slots, ∀ value, slot.2 = some value → value.inert = true := by
  induction slots with
  | nil => simp [inertSlots]
  | cons slot slots ih =>
    obtain ⟨name, _ | value⟩ := slot <;> simp [inertSlots, ih]

end Value

namespace Operator

variable {operator : Operator} {value : Value}

theorem onNumbers?_inert {x y : Float} (h : operator.onNumbers? x y = some (.ok value)) :
    value.inert = true := by
  unfold onNumbers? at h
  split at h
  · rename_i result _
    cases result with
    | error error => cases h
    | ok z =>
      cases h
      rfl
  · obtain ⟨b, -, same⟩ := Option.map_eq_some_iff.1 h
    cases same
    rfl

/-- The outcome on numbers, or else a failure. -/
theorem getD_onNumbers?_inert {x y : Float} {unfit : EvalError}
    (h : (operator.onNumbers? x y).getD (.error unfit) = .ok value) : value.inert = true := by
  cases found : operator.onNumbers? x y with
  | none =>
    rw [found] at h
    cases h
  | some outcome =>
    rw [found] at h
    exact onNumbers?_inert (found.trans (congrArg some h))

theorem apply_inert {left right : Value} (h : operator.apply left right = .ok value) :
    value.inert = true := by
  unfold apply at h
  dsimp only at h
  split at h
  · cases h
    rfl
  · cases h
    rfl
  · split at h
    · exact getD_onNumbers?_inert h
    · split at h
      · cases h
        rfl
      · cases h
    · cases h

end Operator

namespace Builtin

/-- A native function makes inert values of inert ones. -/
def Native.Preserves (native : Native) : Prop :=
  ∀ values value, (∀ argument ∈ values, argument.inert = true) →
    native values = some (.ok value) → value.inert = true

theorem ofBooleans_preserves (f : Bool → Bool → Bool) : (ofBooleans f).Preserves := by
  intro values value _ h
  unfold ofBooleans at h
  split at h
  · simp only [Option.bind_eq_bind, Option.bind_eq_some_iff] at h
    obtain ⟨a, -, b, -, h⟩ := h
    cases h
    rfl
  · cases h

theorem ofNumbers_preserves {f : Float → Float → Except EvalError Value}
    (gives : ∀ x y value, f x y = .ok value → value.inert = true) :
    (ofNumbers f).Preserves := by
  intro values value _ h
  unfold ofNumbers at h
  split at h
  · simp only [Option.bind_eq_bind, Option.bind_eq_some_iff] at h
    obtain ⟨x, -, y, -, h⟩ := h
    exact gives x y value (Option.some.inj h)
  · cases h

theorem ofStrings_preserves {f : String → String → Value}
    (gives : ∀ a b, (f a b).inert = true) : (ofStrings f).Preserves := by
  intro values value _ h
  unfold ofStrings at h
  split at h
  · simp only [Option.bind_eq_bind, Option.bind_eq_some_iff] at h
    obtain ⟨a, -, b, -, h⟩ := h
    cases h
    exact gives a b
  · cases h

theorem ofComparison_preserves (f : Float → Float → Bool) : (ofComparison f).Preserves :=
  ofNumbers_preserves fun _ _ _ h => by
    cases h
    rfl

theorem ofArithmetic_preserves (operator : Operator) : (ofArithmetic operator).Preserves :=
  ofNumbers_preserves fun _ _ _ => Operator.getD_onNumbers?_inert

theorem range_inert {start stop : Float} {value : Value} (h : range start stop = .ok value) :
    value.inert = true := by
  unfold range at h
  split at h
  · dsimp only at h
    split at h
    · cases h
    · cases h
      refine Value.inertItems_iff.2 fun item mem => ?_
      obtain ⟨step, -, rfl⟩ := List.mem_map.1 mem
      rfl
  · cases h

theorem negation_preserves : negation.Preserves := by
  intro values value _ h
  unfold negation at h
  split at h
  · obtain ⟨b, -, same⟩ := Option.map_eq_some_iff.1 h
    cases same
    rfl
  · cases h

theorem mem_of_itemAt {items : List Value} {index : Float} {value : Value}
    (h : itemAt items index = .ok value) : value ∈ items := by
  unfold itemAt at h
  dsimp only at h
  split at h
  · rename_i item found
    cases h
    split at found
    · exact List.mem_of_getElem? found
    · cases found
  · cases h

/-- An item of an inert array is inert. -/
theorem arrayAt_preserves : arrayAt.Preserves := by
  intro values value inert h
  unfold arrayAt at h
  split at h
  · rename_i array index
    simp only [Option.bind_eq_bind, Option.bind_eq_some_iff] at h
    obtain ⟨items, found, x, -, h⟩ := h
    have inert : ∀ item ∈ items, item.inert = true := by
      have whole := inert array List.mem_cons_self
      obtain ⟨type, content⟩ := array
      unfold Value.items? at found
      split at found
      · rename_i inner same
        cases found
        cases same
        exact Value.inertItems_iff.1 whole
      · cases found
    exact inert value (mem_of_itemAt (Option.some.inj h))
  · cases h

theorem arrayCount_preserves : arrayCount.Preserves := by
  intro values value _ h
  unfold arrayCount at h
  split at h
  · obtain ⟨b, -, same⟩ := Option.map_eq_some_iff.1 h
    cases same
    rfl
  · cases h

theorem table_preserves {path : String} {native : Native} (h : table.lookup path = some native) :
    native.Preserves := by
  have mem : native ∈ table.map Prod.snd := by
    generalize table = entries at h
    induction entries with
    | nil => cases h
    | cons entry entries ih =>
      rw [List.lookup_cons] at h
      split at h
      · cases h
        exact List.mem_cons_self
      · exact List.mem_cons_of_mem _ (ih h)
  simp only [table, List.map_cons, List.map_nil, List.mem_cons, List.not_mem_nil, or_false] at mem
  rcases mem with rfl | rfl | rfl | rfl | rfl | rfl | rfl | rfl | rfl | rfl | rfl | rfl | rfl |
    rfl | rfl | rfl | rfl | rfl
  · exact ofBooleans_preserves _
  · exact ofBooleans_preserves _
  · exact negation_preserves
  · exact ofBooleans_preserves _
  · exact ofArithmetic_preserves _
  · exact ofArithmetic_preserves _
  · exact ofArithmetic_preserves _
  · exact ofArithmetic_preserves _
  · exact ofComparison_preserves _
  · exact ofComparison_preserves _
  · exact ofComparison_preserves _
  · exact ofComparison_preserves _
  · exact ofComparison_preserves _
  · exact ofNumbers_preserves fun _ _ _ => range_inert
  · exact ofStrings_preserves fun _ _ => rfl
  · exact ofStrings_preserves fun _ _ => rfl
  · exact arrayAt_preserves
  · exact arrayCount_preserves

theorem call_inert {path : String} {values : List Value} {value : Value}
    (inert : ∀ argument ∈ values, argument.inert = true) (h : call path values = .ok value) :
    value.inert = true := by
  unfold call at h
  cases found : (table.lookup path).bind fun native => native values with
  | none =>
    rw [found] at h
    cases h
  | some outcome =>
    rw [found] at h
    obtain ⟨native, known, result⟩ := Option.bind_eq_some_iff.1 found
    cases h
    exact table_preserves known values value inert result

end Builtin

/-- No closure is part of the arguments that are given. -/
def Arguments.Inert (arguments : Arguments) : Prop :=
  ∀ argument ∈ arguments, ∀ value, argument.2 = some value → value.inert = true

/-- No closure is part of what an inquiry gives or calls, if none is part of what it is told. -/
def Inquiry.Inert : Inquiry → Prop
  | .answer outcome => ∀ value, outcome = .ok value → value.inert = true
  | .call callee arguments _ => callee.inert = true ∧ Arguments.Inert arguments
  | .ask _ next => ∀ value, value.inert = true → (next value).Inert

namespace Call

variable {arguments : Arguments} {values : List Value}

theorem inert_of_mem_filterMap (inert : Arguments.Inert arguments) :
    ∀ value ∈ arguments.filterMap Prod.snd, value.inert = true := by
  intro value mem
  obtain ⟨argument, inside, same⟩ := List.mem_filterMap.1 mem
  exact inert argument inside value same

theorem exists_of_mem_mapM {ε α β : Type} {f : α → Except ε β} {items : List α} {results : List β}
    (h : items.mapM f = .ok results) {b : β} (mem : b ∈ results) : ∃ a ∈ items, f a = .ok b := by
  induction items generalizing results with
  | nil =>
    cases h
    cases mem
  | cons a items ih =>
    rw [List.mapM_cons] at h
    cases first : f a with
    | error error =>
      rw [first] at h
      cases h
    | ok own =>
      rw [first] at h
      cases later : items.mapM f with
      | error error =>
        rw [later] at h
        cases h
      | ok rest =>
        rw [later] at h
        cases h
        rcases List.mem_cons.1 mem with rfl | mem
        · exact ⟨a, List.mem_cons_self, first⟩
        · obtain ⟨other, inside, same⟩ := ih later mem
          exact ⟨other, List.mem_cons_of_mem _ inside, same⟩

/-- A slot receives an argument or its default. -/
theorem receive_inert {slots : List (String × Option Value)}
    (defaults : ∀ slot ∈ slots, ∀ value, slot.2 = some value → value.inert = true)
    (inert : Arguments.Inert arguments) (h : receive slots arguments = .ok values) :
    ∀ value ∈ values, value.inert = true := by
  unfold receive at h
  split at h
  · cases h
  · rename_i filled aligned
    have given : ∀ argument ∈ filled, ∀ value, argument.join = some value → value.inert = true := by
      intro argument mem value same
      obtain ⟨value?, rfl, rfl⟩ : ∃ value?, argument = some value? ∧ value? = some value := by
        cases argument with
        | none => cases same
        | some value? => exact ⟨value?, rfl, same⟩
      obtain ⟨argument, inside, same⟩ := List.mem_map.1 (align_from aligned mem)
      exact inert argument inside value same
    intro value mem
    obtain ⟨⟨slot, argument⟩, inside, received⟩ := exists_of_mem_mapM h mem
    obtain ⟨isSlot, isGiven⟩ := List.of_mem_zip inside
    dsimp only at received
    split at received
    · rename_i own
      cases received
      rcases Option.or_eq_some_iff.1 own with own | ⟨-, default⟩
      · exact given argument isGiven value own
      · exact defaults slot isSlot value default
    · cases received

/-- A call of an inert value with inert arguments gives an inert value. -/
theorem native_inert {callee value : Value} {result : StaticType} (inert : callee.inert = true)
    (given : Arguments.Inert arguments) (h : native callee arguments result = .ok value) :
    value.inert = true := by
  obtain ⟨type, content⟩ := callee
  unfold native at h
  cases content with
  | builtin path => exact Builtin.call_inert (inert_of_mem_filterMap given) h
  | recordConstructor record fields =>
    dsimp only [Value.content_mk] at h
    cases received : receive fields arguments with
    | error error =>
      rw [received] at h
      cases h
    | ok values =>
      rw [received] at h
      cases h
      refine Value.inertFields_iff.2 fun field mem => ?_
      exact receive_inert (Value.inertSlots_iff.1 inert) given received _ (List.of_mem_zip mem).2
  | caseConstructor caseName =>
    cases h
    exact Value.inertItems_iff.2 (inert_of_mem_filterMap given)
  | closure => cases inert
  | _ =>
    cases h
    rfl

/-- The context stays as it is in a call of an inert value. -/
theorem callValue_native (plan : Plan) (limits : Limits) (evaluate : NodeId → Eval Value)
    (id : NodeId) {callee : Value} (inert : callee.inert = true) (arguments : Arguments)
    (result : StaticType) (machine : Machine) :
    (callValue plan limits evaluate id callee arguments result machine).1 =
        native callee arguments result ∧
      (callValue plan limits evaluate id callee arguments result machine).2.context =
        machine.context := by
  obtain ⟨type, content⟩ := callee
  unfold callValue native
  cases content with
  | builtin path =>
    dsimp only [Value.content_mk]
    cases Builtin.call path (arguments.filterMap Prod.snd) <;> exact ⟨rfl, rfl⟩
  | recordConstructor record fields =>
    dsimp only [Value.content_mk]
    cases receive fields arguments <;> exact ⟨rfl, rfl⟩
  | closure => cases inert
  | _ => exact ⟨rfl, rfl⟩

theorem distribute_inert {α : Type} {slots : List (α × Bool)}
    (inert : ∀ value ∈ values, value.inert = true) :
    ∀ slot ∈ distribute slots values, ∀ value, slot.2 = some value → value.inert = true := by
  induction slots generalizing values with
  | nil => exact fun _ mem => absurd mem List.not_mem_nil
  | cons slot slots ih =>
    obtain ⟨a, given⟩ := slot
    cases given with
    | false =>
      rintro slot (_ | ⟨_, later⟩) value same
      · cases same
      · exact ih inert slot later value same
    | true =>
      rintro slot (_ | ⟨_, later⟩) value same
      · exact inert value (List.mem_of_mem_head? same)
      · exact ih (fun value mem => inert value (List.mem_of_mem_tail mem)) slot later value same

end Call

namespace Inquiry

theorem inert_askAll {ids : List NodeId} {next : List Value → Inquiry}
    (h : ∀ values : List Value, (∀ value ∈ values, value.inert = true) → (next values).Inert) :
    (askAll ids next).Inert := by
  induction ids generalizing next with
  | nil => exact h [] fun _ mem => absurd mem List.not_mem_nil
  | cons id ids ih =>
    exact fun value own => ih fun values inert => h _ (List.forall_mem_cons.2 ⟨own, inert⟩)

theorem inert_decide {value : Value} {next : Bool → Inquiry} (h : ∀ b, (next b).Inert) :
    (decide value next).Inert := by
  unfold decide
  split
  · exact h _
  · exact nofun

/-- The result of an inert inquiry is inert, if everything known is. -/
theorem Inert.result? {inquiry : Inquiry} (inert : inquiry.Inert)
    {inside : NodeId → Prop} (within : inquiry.Within inside) {look : NodeId → Option Value}
    (known : ∀ id, inside id → ∀ value, look id = some value → value.inert = true) {value : Value}
    (h : inquiry.result? look = some value) : value.inert = true := by
  induction inquiry with
  | answer outcome =>
    cases outcome with
    | error error => cases h
    | ok own =>
      cases h
      exact inert _ rfl
  | call callee arguments result =>
    unfold Inquiry.result? at h
    cases native : Call.native callee arguments result with
    | error error =>
      rw [native] at h
      cases h
    | ok own =>
      rw [native] at h
      cases h
      exact Call.native_inert inert.1 inert.2 native
  | ask id next ih =>
    obtain ⟨answer, found, h⟩ := Option.bind_eq_some_iff.1 h
    exact ih answer (inert answer (known id within.1 answer found)) (within.2 answer) h

end Inquiry

theorem Recipe.inquiry_inert {recipe : Recipe} (data : recipe.isData) (id : NodeId)
    {values : List Value} (inert : ∀ value ∈ values, value.inert = true) :
    (recipe.inquiry id values).Inert := by
  have truth (b : Bool) : (Inquiry.answer (.ok (.boolean b))).Inert := fun value same => by
    cases same
    rfl
  cases recipe with
  | relay =>
    cases values with
    | nil => exact nofun
    | cons value values =>
      intro other same
      cases same
      exact inert value List.mem_cons_self
  | array type =>
    intro other same
    cases same
    exact Value.inertItems_iff.2 inert
  | recordConstructor type record fields =>
    intro other same
    cases same
    exact Value.inertSlots_iff.2 (Call.distribute_inert inert)
  | call result slots =>
    cases values with
    | nil => exact nofun
    | cons callee values =>
      exact ⟨inert callee List.mem_cons_self,
        Call.distribute_inert fun value mem => inert value (List.mem_cons_of_mem _ mem)⟩
  | operation operator =>
    rcases values with _ | ⟨left, _ | ⟨right, _ | _⟩⟩
    · exact nofun
    · exact nofun
    · exact fun _ => Operator.apply_inert
    · exact nofun
  | shortCircuit decisive first second =>
    refine fun value _ => Inquiry.inert_decide fun holds => ?_
    split
    · exact truth holds
    · exact fun value _ => Inquiry.inert_decide truth
  | evaluate other =>
    intro value inert other same
    cases same
    exact inert
  | condition other => exact fun value _ => Inquiry.inert_decide truth
  | closure | compute | evaluateApart | tally => cases data
  | failure error => exact nofun

/-- Recipes that need nothing but the values of nodes make inert values of inert ones. -/
theorem Thunk.inquiry_inert {thunk : Thunk} (data : thunk.recipe.isData) (id : NodeId) :
    (thunk.inquiry id).Inert :=
  Inquiry.inert_askAll fun _ => Recipe.inquiry_inert data id

end DeclLang
