import DeclLang.Proofs.DeclaredTypes
import DeclLang.Proofs.FreshNames

/-!
# Accounts of the types of a tree

An account says which types nodes and declarations have, and what stands for the variables in them,
however it was come by.  Inference takes its variables one after the other, so what is chosen to
stand for them is a list that only grows.

**Input.**  An account, and the state that a tour of inference has come to.

**Invariant.**  `Account.Realizes`: when the variables stand for what was chosen, all types found so
far are those of the account, and all constraints hold.

**Results.**  `Account.Answers` says that a step keeps the invariant, whatever was chosen before,
for some choice of what stands for the variables that it takes.  There is one rule for every way of
putting steps together, and one lemma for every step that changes what is known.
-/

namespace DeclLang

namespace Inference

/-- The assignment takes the variables of a supply for the given types, in the order in which they
are taken. -/
def Follows (stem : String) (values : List StaticType) (assignment : Assignment) : Prop :=
  ∀ n value, values[n]? = some value → assignment (stem ++ Numeral36.ofNat n) = value

section Follows

variable {stem : String} {values more : List StaticType} {assignment : Assignment}

theorem Follows.of_prefix (h : Follows stem more assignment) (longer : values <+: more) :
    Follows stem values assignment := by
  obtain ⟨rest, rfl⟩ := longer
  intro n value found
  refine h n value ?_
  rw [List.getElem?_append_left (List.getElem?_eq_some_iff.1 found).1, found]

/-- Any types can stand for the variables of a supply, because no two of them have one name. -/
theorem exists_follows (stem : String) (values : List StaticType) :
    ∃ assignment, Follows stem values assignment := by
  classical
  refine ⟨fun name => if taken : ∃ n, name = stem ++ Numeral36.ofNat n then
    (values[taken.choose]?).getD .unit else .unit, fun n value found => ?_⟩
  have taken : ∃ m, stem ++ Numeral36.ofNat n = stem ++ Numeral36.ofNat m := ⟨n, rfl⟩
  have same : taken.choose = n :=
    (Numeral36.ofNat_inj ((String.append_right_inj stem).1 taken.choose_spec)).symm
  dsimp only
  rw [dif_pos taken, same, found, Option.getD_some]

end Follows

/-- The types of nodes and declarations, and what stands for the variables in them. -/
structure Account where
  environment : Environment
  typing : Typing
  solution : Assignment

namespace Account

section Relations

variable (account : Account)

/-- The judgment of the account: two types are the same if what stands for them agrees. -/
def judgment : Judgment where
  environment := account.environment
  typing := account.typing
  same s t := (s.instantiate account.solution).Agrees (t.instantiate account.solution)

/-- Under the assignment, the type stands for what a type of the account stands for. -/
def Stands (assignment : Assignment) (type own : StaticType) : Prop :=
  (type.instantiate assignment).Agrees (own.instantiate account.solution)

/-- Under the assignment, the type of a declaration is that of the account, whatever comes in place
of its generic parameters. -/
def Matches (assignment : Assignment) (type own : StaticType) : Prop :=
  ∀ generics : String → StaticType,
    (type.mapLeaves assignment generics).Agrees (own.mapLeaves account.solution generics)

/-- The return type of a function as the account has it. -/
def Returning (assignment : Assignment) (function : Node) (type : StaticType) : Prop :=
  ∃ received result, account.typing.declarations[function.id]? = some (.function received result) ∧
    account.Stands assignment type result

/-- Under the assignment, a state of inference inside the given functions is what the account
says. -/
structure Realizes (functions : List Node) (assignment : Assignment) (state : State) : Prop where
  constraints : ∀ constraint ∈ state.typing.constraints, constraint.Holds assignment
  nodes : ∀ (id : NodeId) (type : StaticType), state.typing.nodes[id]? = some type →
    ∃ own, account.typing.nodes[id]? = some own ∧ account.Stands assignment type own
  declarations : ∀ (id : NodeId) (type : StaticType), state.typing.declarations[id]? = some type →
    ∃ own, account.typing.declarations[id]? = some own ∧ account.Matches assignment type own
  returns : List.Forall₂ (account.Returning assignment) functions state.returnTypes
  demanded : ∀ (id : NodeId) (type : StaticType), state.demanded[id]? = some type →
    ∀ own, account.typing.nodes[id]? = some own → account.Stands assignment type own

/-- A state of inference in which the given types stand for the variables that are taken. -/
structure Models (stem : String) (functions : List Node) (values : List StaticType)
    (state : State) : Prop where
  supply : state.typing.supply.stem = stem
  taken : state.typing.supply.next = values.length
  realizes : ∀ assignment, Follows stem values assignment →
    account.Realizes functions assignment state

/-- The step goes on as the account says, for some choice of what stands for the variables that it
takes.  It may rely on what is given under all earlier choices, and what it comes to holds under all
later ones. -/
def Answers {α : Type} (stem : String) (functions later : List Node) (given : Assignment → Prop)
    (step : Infer α) (result : α → Assignment → Prop) : Prop :=
  ∀ values before, account.Models stem functions values before →
    (∀ assignment, Follows stem values assignment → given assignment) →
      ∃ more, values <+: more ∧ account.Models stem later more (step before).2 ∧
        ∀ assignment, Follows stem more assignment → result (step before).1 assignment

end Relations

section Types

variable {account : Account} {assignment : Assignment}

theorem agrees_constant {name : String} {left right : List StaticType}
    (parts : List.Forall₂ StaticType.Agrees left right) :
    (StaticType.constant name left).Agrees (.constant name right) := by
  unfold StaticType.Agrees
  simp only [StaticType.unlabeled, StaticType.constant.injEq, true_and]
  induction parts with
  | nil => rfl
  | cons first _ ih => rw [List.map_cons, List.map_cons, ih, first]

theorem agrees_function {left right : List (Option String × StaticType)}
    {result returned : StaticType}
    (parts : List.Forall₂ (fun slot other => slot.2.Agrees other.2) left right)
    (results : result.Agrees returned) :
    (StaticType.function left result).Agrees (.function right returned) := by
  unfold StaticType.Agrees
  simp only [StaticType.unlabeled, StaticType.function.injEq]
  refine ⟨?_, results⟩
  induction parts with
  | nil => rfl
  | cons first _ ih => rw [List.map_cons, List.map_cons, ih, first]

theorem Matches.stands {type own : StaticType} (h : account.Matches assignment type own) :
    account.Stands assignment type own :=
  h .generic

theorem Matches.constant {name : String} {types owns : List StaticType}
    (parts : List.Forall₂ (account.Matches assignment) types owns) :
    account.Matches assignment (.constant name types) (.constant name owns) := by
  intro generics
  simp only [StaticType.mapLeaves]
  refine agrees_constant ?_
  rw [List.forall₂_map_left_iff, List.forall₂_map_right_iff]
  exact parts.imp fun _ _ matching => matching generics

theorem Matches.function {types owns : List (Option String × StaticType)}
    {result own : StaticType}
    (parts : List.Forall₂ (fun slot other => account.Matches assignment slot.2 other.2) types owns)
    (results : account.Matches assignment result own) :
    account.Matches assignment (.function types result) (.function owns own) := by
  intro generics
  simp only [StaticType.mapLeaves]
  refine agrees_function ?_ (results generics)
  rw [List.forall₂_map_left_iff, List.forall₂_map_right_iff]
  exact parts.imp fun _ _ matching => matching generics

/-- The same function has the same result. -/
theorem Matches.result {types owns : List (Option String × StaticType)} {result own : StaticType}
    (h : account.Matches assignment (.function types result) (.function owns own)) :
    account.Matches assignment result own := by
  intro generics
  have same := h generics
  simp only [StaticType.Agrees, StaticType.mapLeaves, StaticType.unlabeled,
    StaticType.function.injEq] at same
  exact same.2

/-- A type without variables is the same for everyone. -/
theorem Matches.closed {type : StaticType} (closed : type.freeVariables = []) :
    account.Matches assignment type type := by
  intro generics
  rw [StaticType.mapLeaves_congr (fun name mem => ?_) fun _ _ => rfl]
  rw [closed] at mem
  cases mem

theorem Stands.function {types owns : List (Option String × StaticType)} {result own : StaticType}
    (parts : List.Forall₂ (fun slot other => account.Stands assignment slot.2 other.2) types owns)
    (results : account.Stands assignment result own) :
    account.Stands assignment (.function types result) (.function owns own) := by
  unfold Stands StaticType.instantiate
  simp only [StaticType.mapLeaves]
  refine agrees_function ?_ results
  rw [List.forall₂_map_left_iff, List.forall₂_map_right_iff]
  exact parts

/-- Types that stand for the same are held together by a constraint. -/
theorem Stands.holds {head tail own other : StaticType} {origin : NodeId}
    (left : account.Stands assignment head own) (right : account.Stands assignment tail other)
    (same : account.judgment.same own other) :
    ({ head, tail, origin } : Constraint).Holds assignment :=
  (left.trans same).trans right.symm

theorem Stands.of_same {type own other : StaticType} (h : account.Stands assignment type own)
    (same : account.judgment.same own other) : account.Stands assignment type other :=
  h.trans same

end Types

section Rules

variable {account : Account} {stem : String} {functions middle later : List Node}
  {given : Assignment → Prop} {α β γ : Type}

theorem answers_pure {b : α} {result : α → Assignment → Prop}
    (h : ∀ assignment, given assignment → result b assignment) :
    account.Answers stem functions functions given (pure b) result :=
  fun values _ models known =>
    ⟨values, List.prefix_refl _, models, fun assignment follows =>
      h assignment (known assignment follows)⟩

theorem answers_value (b : α) :
    account.Answers stem functions functions given (pure b) fun a _ => a = b :=
  answers_pure fun _ _ => rfl

theorem Answers.bind {step : Infer α} {rest : α → Infer β} {found : α → Assignment → Prop}
    {result : β → Assignment → Prop}
    (first : account.Answers stem functions middle given step found)
    (next : ∀ a, account.Answers stem middle later
      (fun assignment => given assignment ∧ found a assignment) (rest a) result) :
    account.Answers stem functions later given (step >>= rest) result := by
  intro values before models known
  obtain ⟨more, longer, modelsNext, knownNext⟩ := first values before models known
  obtain ⟨all, longest, modelsLast, knownLast⟩ := next _ more _ modelsNext
    fun assignment follows =>
      ⟨known assignment (follows.of_prefix longer), knownNext assignment follows⟩
  exact ⟨all, longer.trans longest, modelsLast, knownLast⟩

/-- A step may be given more than it relies on, and less may be said of its result. -/
theorem Answers.imp {step : Infer α} {more : Assignment → Prop}
    {result less : α → Assignment → Prop}
    (h : account.Answers stem functions later given step result)
    (stronger : ∀ assignment, more assignment → given assignment)
    (weaker : ∀ a assignment, more assignment → result a assignment → less a assignment) :
    account.Answers stem functions later more step less := by
  intro values before models known
  obtain ⟨all, longer, modelsNext, knownNext⟩ := h values before models
    fun assignment follows => stronger assignment (known assignment follows)
  exact ⟨all, longer, modelsNext, fun assignment follows =>
    weaker _ assignment (known assignment (follows.of_prefix longer)) (knownNext assignment follows)⟩

theorem Answers.of_given {step : Infer α} {more : Assignment → Prop}
    {result : α → Assignment → Prop} (h : account.Answers stem functions later given step result)
    (stronger : ∀ assignment, more assignment → given assignment) :
    account.Answers stem functions later more step result :=
  h.imp stronger fun _ _ _ found => found

theorem answers_get :
    account.Answers stem functions functions given get
      fun state assignment => account.Realizes functions assignment state :=
  fun values _ models _ => ⟨values, List.prefix_refl _, models, models.realizes⟩

/-- A change of the state that takes no variable. -/
theorem answers_modify {change : State → State}
    (supply : ∀ state, (change state).typing.supply = state.typing.supply)
    (keeps : ∀ state assignment, given assignment → account.Realizes functions assignment state →
      account.Realizes later assignment (change state)) :
    account.Answers stem functions later given (modify change) fun _ _ => True :=
  fun values before models known => ⟨values, List.prefix_refl _,
    { supply := (congrArg VariableSupply.stem (supply before)).trans models.supply
      taken := (congrArg VariableSupply.next (supply before)).trans models.taken
      realizes := fun assignment follows =>
        keeps before assignment (known assignment follows) (models.realizes assignment follows) },
    fun _ _ => trivial⟩

/-- Steps for the members of a list, one after the other. -/
theorem answers_mapM {items : List α} {targets : List γ} {step : α → Infer β}
    {fits : γ → β → Assignment → Prop}
    (each : List.Forall₂ (fun item target =>
      account.Answers stem functions functions given (step item) (fits target)) items targets) :
    account.Answers stem functions functions given (items.mapM step) fun results assignment =>
      List.Forall₂ (fun b target => fits target b assignment) results targets := by
  induction each with
  | nil => exact answers_pure fun _ _ => .nil
  | cons first _ ih =>
    rw [List.mapM_cons]
    exact first.bind fun _ => (ih.of_given fun _ known => known.1).bind fun _ =>
      answers_pure fun _ known => .cons known.1.2 known.2

theorem answers_forIn {items : List α} {body : α → PUnit → Infer (ForInStep PUnit)}
    (each : ∀ item ∈ items, account.Answers stem functions functions given (body item PUnit.unit)
      fun _ _ => True) :
    account.Answers stem functions functions given (forIn items PUnit.unit body)
      fun _ _ => True := by
  induction items with
  | nil => exact answers_pure fun _ _ => trivial
  | cons item items ih =>
    rw [List.forIn_cons]
    refine (each item List.mem_cons_self).bind fun step => ?_
    cases step with
    | done => exact answers_pure fun _ _ => trivial
    | yield =>
      exact (ih fun other mem => each other (List.mem_cons_of_mem _ mem)).of_given
        fun _ known => known.1

end Rules

section Steps

variable {account : Account} {stem : String} {functions : List Node} {given : Assignment → Prop}

/-- Anything can stand for a fresh variable. -/
theorem answers_fresh (own : StaticType) :
    account.Answers stem functions functions given fresh fun type assignment =>
      ∃ name, type = .variable name ∧ assignment name = own.instantiate account.solution := by
  intro values before models known
  have last : (values ++ [own.instantiate account.solution])[before.typing.supply.next]? =
      some (own.instantiate account.solution) := by
    rw [models.taken]
    exact List.getElem?_concat_length
  refine ⟨values ++ [own.instantiate account.solution], List.prefix_append _ _, ⟨models.supply, ?_,
    fun assignment follows => ?_⟩, fun assignment follows => ⟨_, rfl, ?_⟩⟩
  · rw [List.length_append, List.length_singleton, ← models.taken]
    rfl
  · have realizes := models.realizes assignment (follows.of_prefix (List.prefix_append _ _))
    exact ⟨realizes.constraints, realizes.nodes, realizes.declarations, realizes.returns,
      realizes.demanded⟩
  · rw [models.supply]
    exact follows _ _ last

theorem answers_fresh_stands (own : StaticType) :
    account.Answers stem functions functions given fresh fun type assignment =>
      account.Stands assignment type own := by
  refine (answers_fresh own).imp (fun _ known => known) ?_
  rintro _ assignment - ⟨name, rfl, stands⟩
  unfold Stands StaticType.instantiate at *
  rw [StaticType.mapLeaves, stands]

/-- A variable of the account is matched by a fresh one. -/
theorem answers_fresh_matches (name : String) :
    account.Answers stem functions functions given fresh fun type assignment =>
      account.Matches assignment type (.variable name) := by
  refine (answers_fresh (.variable name)).imp (fun _ known => known) ?_
  rintro _ assignment - ⟨fresh, rfl, stands⟩ generics
  rw [StaticType.mapLeaves, StaticType.mapLeaves, stands, StaticType.instantiate,
    StaticType.mapLeaves]

theorem answers_constrain {head tail : StaticType} {origin : NodeId}
    (holds : ∀ assignment, given assignment →
      ({ head, tail, origin } : Constraint).Holds assignment) :
    account.Answers stem functions functions given (constrain head tail origin)
      fun _ _ => True := by
  refine answers_modify (fun _ => rfl) fun state assignment known realizes => ?_
  refine ⟨fun constraint mem => ?_, realizes.nodes, realizes.declarations, realizes.returns,
    realizes.demanded⟩
  rcases Array.mem_push.1 mem with mem | rfl
  · exact realizes.constraints constraint mem
  · exact holds assignment known

theorem answers_setNodeType {id : NodeId} {type own : StaticType}
    (entry : account.typing.nodes[id]? = some own)
    (stands : ∀ assignment, given assignment → account.Stands assignment type own) :
    account.Answers stem functions functions given (setNodeType id type) fun _ _ => True := by
  refine answers_modify (fun _ => rfl) fun state assignment known realizes => ?_
  refine ⟨realizes.constraints, fun other found stored => ?_, realizes.declarations,
    realizes.returns, realizes.demanded⟩
  rw [Std.TreeMap.getElem?_insert] at stored
  split at stored
  · rename_i same
    rw [Nat.compare_eq_eq] at same
    cases stored
    exact ⟨own, same ▸ entry, stands assignment known⟩
  · exact realizes.nodes other found stored

theorem answers_setDeclarationType {id : NodeId} {type own : StaticType}
    (entry : account.typing.declarations[id]? = some own)
    (matching : ∀ assignment, given assignment → account.Matches assignment type own) :
    account.Answers stem functions functions given (setDeclarationType id type)
      fun _ _ => True := by
  refine answers_modify (fun _ => rfl) fun state assignment known realizes => ?_
  refine ⟨realizes.constraints, realizes.nodes, fun other found stored => ?_, realizes.returns,
    realizes.demanded⟩
  rw [Std.TreeMap.getElem?_insert] at stored
  split at stored
  · rename_i same
    rw [Nat.compare_eq_eq] at same
    cases stored
    exact ⟨own, same ▸ entry, matching assignment known⟩
  · exact realizes.declarations other found stored

/-- The type of a node that has one in the account. -/
theorem answers_typeOf {node : Node} {type : StaticType}
    (known : account.judgment.HasType node type) :
    account.Answers stem functions functions given (typeOf node) fun found assignment =>
      account.Stands assignment found type := by
  obtain ⟨own, entry, same⟩ := known
  refine answers_get.bind fun state => ?_
  split
  · rename_i stored
    refine answers_pure fun assignment known => ?_
    obtain ⟨_, again, stands⟩ := known.2.nodes _ _ stored
    cases again.symm.trans entry
    exact stands.of_same same
  · exact (answers_fresh_stands own).bind fun type =>
      (answers_setNodeType entry fun _ known => known.2).bind fun _ =>
        answers_pure fun _ known => known.1.2.of_same same

/-- Fresh variables for generic parameters, for which anything can stand. -/
theorem answers_freshFor (replacement : String → StaticType) (names : List String) :
    account.Answers stem functions functions given (freshFor names) fun replacements assignment =>
      ∀ name ∈ names, ∃ type, replacements.lookup name = some type ∧
        type.instantiate assignment = (replacement name).instantiate account.solution := by
  induction names with
  | nil => exact answers_pure fun _ _ => List.forall_mem_nil _
  | cons name names ih =>
    refine (answers_fresh (replacement name)).bind fun type => (ih.of_given fun _ known =>
      known.1).bind fun rest => answers_pure fun assignment known other mem => ?_
    obtain ⟨fresh, rfl, stands⟩ := known.1.2
    rw [List.lookup_cons]
    by_cases same : other = name
    · subst same
      rw [beq_self_eq_true]
      refine ⟨_, rfl, ?_⟩
      rw [StaticType.instantiate, StaticType.mapLeaves, stands]
    · rw [beq_eq_false_iff_ne.2 same]
      exact known.2 other ((List.mem_cons.1 mem).resolve_left same)

end Steps

end Account

end Inference

end DeclLang
