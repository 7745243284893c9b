import DeclLang.Syntax.Tour
import DeclLang.Proofs.Trees

/-!
# What steps keep and give

**Input.**  A property of states, and a step that carries such a state and may fail.

**Results.**  Equations for sequences of steps.  `Step.Ensures`: a step keeps the property, and
what it gives has another one.  There is one rule for every way in which steps are put together, and
`Node.tour_ensures` for tours.
-/

namespace DeclLang

/-- An outcome of which the result is found out is a success. -/
theorem eq_ok_of_toOption {ε α : Type} {outcome : Except ε α} {a : α}
    (h : outcome.toOption = some a) : outcome = .ok a := by
  cases outcome with
  | ok result => exact congrArg Except.ok (Option.some.inj h)
  | error error => cases h

/-- Steps that are the same for every item are the same for the list. -/
theorem mapM_congr_of_mem {m : Type → Type} [Monad m] [LawfulMonad m] {α β : Type} {items : List α}
    {f g : α → m β} (h : ∀ a ∈ items, f a = g a) : items.mapM f = items.mapM g := by
  induction items with
  | nil => rfl
  | cons a items ih =>
    rw [List.mapM_cons, List.mapM_cons, h a List.mem_cons_self,
      ih fun other mem => h other (List.mem_cons_of_mem _ mem)]

namespace Step

variable {ε σ α β : Type} {keeps : σ → Prop} {gives : α → Prop} {more : β → Prop}

theorem bind_ok {step : Step ε σ α} {next : α → Step ε σ β} {state after : σ} {a : α}
    (h : step state = (.ok a, after)) : (step >>= next) state = next a after := by
  simp only [bind, ExceptT.bind, ExceptT.mk, StateT.bind, h]
  rfl

theorem bind_error {step : Step ε σ α} {next : α → Step ε σ β} {state after : σ} {error : ε}
    (h : step state = (.error error, after)) :
    (step >>= next) state = (.error error, after) := by
  simp only [bind, ExceptT.bind, ExceptT.mk, StateT.bind, h]
  rfl

theorem bind_fst_ok {step : Step ε σ α} {next : α → Step ε σ β} {state : σ} {a : α}
    (h : (step state).1 = .ok a) : (step >>= next) state = next a (step state).2 :=
  bind_ok (Prod.ext h rfl)

theorem bind_fst_error {step : Step ε σ α} {next : α → Step ε σ β} {state : σ} {error : ε}
    (h : (step state).1 = .error error) : ((step >>= next) state).1 = .error error := by
  have whole : step state = (.error error, (step state).2) := Prod.ext h rfl
  rw [bind_error whole]

theorem bind_congr {step other : Step ε σ α} {next : α → Step ε σ β} {state middle : σ}
    (h : step state = other middle) : (step >>= next) state = (other >>= next) middle := by
  simp only [bind, ExceptT.bind, ExceptT.mk, StateT.bind, h]

/-- The first step of a sequence that succeeds has succeeded. -/
theorem bind_ok_inv {step : Step ε σ α} {next : α → Step ε σ β} {state after : σ} {b : β}
    (h : (step >>= next) state = (.ok b, after)) :
    ∃ a middle, step state = (.ok a, middle) ∧ next a middle = (.ok b, after) := by
  simp only [bind, ExceptT.bind, ExceptT.mk, StateT.bind] at h
  cases first : step state with
  | mk outcome middle =>
    rw [first] at h
    cases outcome with
    | error error => cases h
    | ok a => exact ⟨a, middle, rfl, h⟩

/-- A step of whose result something is found out has succeeded. -/
theorem ok_of_toOption {step : Step ε σ α} {state : σ} {find : α → Option β} {b : β}
    (h : (step state).1.toOption.bind find = some b) :
    ∃ a, step state = (.ok a, (step state).2) ∧ find a = some b := by
  obtain ⟨a, succeeds, found⟩ := Option.bind_eq_some_iff.1 h
  exact ⟨a, Prod.ext (eq_ok_of_toOption succeeds) rfl, found⟩

/-- Whether it fails or not, the step keeps a property of the state; what it gives has a property
if it does not fail. -/
def Ensures (keeps : σ → Prop) (step : Step ε σ α) (gives : α → Prop) : Prop :=
  ∀ state, keeps state → keeps (step state).2 ∧ ∀ a, (step state).1 = .ok a → gives a

/-- The step keeps a property of the state. -/
abbrev Keeps (keeps : σ → Prop) (step : Step ε σ α) : Prop :=
  Ensures keeps step fun _ => True

theorem ensures_pure {a : α} (h : gives a) : Ensures keeps (pure a : Step ε σ α) gives :=
  fun _ kept => ⟨kept, fun b same => by cases same; exact h⟩

theorem ensures_throw (error : ε) : Ensures keeps (throw error : Step ε σ α) gives :=
  fun _ kept => ⟨kept, nofun⟩

theorem Ensures.bind {step : Step ε σ α} {next : α → Step ε σ β} (first : Ensures keeps step gives)
    (rest : ∀ a, gives a → Ensures keeps (next a) more) : Ensures keeps (step >>= next) more := by
  intro state kept
  obtain ⟨keptFirst, given⟩ := first state kept
  simp only [Bind.bind, ExceptT.bind, ExceptT.mk, StateT.bind]
  cases outcome : step state with
  | mk result middle =>
    rw [outcome] at keptFirst given
    cases result with
    | error error => exact ⟨keptFirst, nofun⟩
    | ok a => exact rest a (given a rfl) middle keptFirst

/-- The state after a step that succeeds. -/
theorem Ensures.after_ok {step : Step ε σ α} (h : Ensures keeps step gives) {state after : σ}
    {a : α} (kept : keeps state) (ran : step state = (.ok a, after)) : keeps after := by
  have holds := (h state kept).1
  rwa [ran] at holds

theorem Ensures.imp {step : Step ε σ α} {other : α → Prop} (h : Ensures keeps step gives)
    (imp : ∀ a, gives a → other a) : Ensures keeps step other :=
  fun state kept => ⟨(h state kept).1, fun a same => imp a ((h state kept).2 a same)⟩

theorem Ensures.toKeeps {step : Step ε σ α} (h : Ensures keeps step gives) : Keeps keeps step :=
  h.imp fun _ _ => trivial

theorem ensures_get : Ensures keeps (get : Step ε σ σ) keeps :=
  fun _ kept => ⟨kept, fun _ same => by cases same; exact kept⟩

theorem ensures_set {state : σ} (h : keeps state) :
    Keeps keeps (set state : Step ε σ PUnit) :=
  fun _ _ => ⟨h, fun _ _ => trivial⟩

theorem ensures_modify {f : σ → σ} (h : ∀ state, keeps state → keeps (f state)) :
    Keeps keeps (modify f : Step ε σ PUnit) :=
  fun state kept => ⟨h state kept, fun _ _ => trivial⟩

/-- A loop over a list that is not left early keeps what each turn keeps. -/
theorem ensures_forIn {items : List α} {body : α → PUnit → Step ε σ (ForInStep PUnit)}
    (each : ∀ a ∈ items, Ensures keeps (body a PUnit.unit) fun step => step = .yield PUnit.unit) :
    Keeps keeps (forIn items PUnit.unit body) := by
  induction items with
  | nil => exact ensures_pure trivial
  | cons a items ih =>
    rw [List.forIn_cons]
    refine (each a List.mem_cons_self).bind fun step yields => ?_
    subst yields
    exact ih fun b mem => each b (List.mem_cons_of_mem _ mem)

theorem ensures_allM {items : List α} {test : α → Step ε σ Bool}
    (each : ∀ a ∈ items, Keeps keeps (test a)) : Keeps keeps (items.allM test) := by
  induction items with
  | nil => exact ensures_pure trivial
  | cons a items ih =>
    unfold List.allM
    refine Ensures.bind (each a List.mem_cons_self) fun b _ => ?_
    cases b with
    | false => exact ensures_pure trivial
    | true => exact ih fun b mem => each b (List.mem_cons_of_mem _ mem)

theorem mapM_keeps {items : List α} {step : α → Step ε σ β}
    (each : ∀ a ∈ items, Keeps keeps (step a)) : Keeps keeps (items.mapM step) := by
  induction items with
  | nil => exact ensures_pure trivial
  | cons a items ih =>
    rw [List.mapM_cons]
    exact (each a List.mem_cons_self).bind fun _ _ =>
      (ih fun b mem => each b (List.mem_cons_of_mem _ mem)).bind fun _ _ => ensures_pure trivial

/-- Whether it fails or not, the step leads from states of one kind to states of another. -/
def Leads (start : σ → Prop) (step : Step ε σ α) (ends : σ → Prop) : Prop :=
  ∀ state, start state → ends (step state).2

theorem Ensures.leads {step : Step ε σ α} (h : Ensures keeps step gives) :
    Leads keeps step keeps :=
  fun state kept => (h state kept).1

theorem Leads.bind {start middle ends : σ → Prop} {step : Step ε σ α} {next : α → Step ε σ β}
    (first : Leads start step middle) (rest : ∀ a, Leads middle (next a) ends)
    (fails : ∀ state, middle state → ends state) : Leads start (step >>= next) ends := by
  intro state kept
  have reached := first state kept
  simp only [Bind.bind, ExceptT.bind, ExceptT.mk, StateT.bind]
  cases outcome : step state with
  | mk result after =>
    rw [outcome] at reached
    cases result with
    | error error => exact fails after reached
    | ok a => exact rest a after reached

end Step

/-- A tour keeps what entering and leaving the nodes that it comes to keep. -/
theorem Node.tour_ensures_reaching {ε σ : Type} {keeps : σ → Prop} {visitor : Visitor ε σ}
    {reaches : Node → Prop} {node : Node} (here : reaches node)
    (enters : ∀ inner ∈ node.preorder, reaches inner →
      Step.Ensures keeps (visitor.enter inner) fun direction =>
        direction = .descend → ∀ child ∈ inner.children, reaches child)
    (leaves : ∀ inner ∈ node.preorder, reaches inner → Step.Keeps keeps (visitor.leave inner)) :
    Step.Keeps keeps (node.tour visitor) := by
  induction node using Node.children_induction with
  | step node ih =>
    have leave : Step.Keeps keeps (do
        visitor.leave node
        return true) :=
      (leaves node node.self_mem_preorder here).bind fun _ _ => Step.ensures_pure trivial
    rw [Node.tour_eq]
    refine (enters node node.self_mem_preorder here).bind fun direction further => ?_
    cases direction with
    | stop => exact Step.ensures_pure trivial
    | pass => exact leave
    | descend =>
      have children : Step.Keeps keeps (node.children.allM (Node.tour visitor)) :=
        Step.ensures_allM fun child mem => ih child mem (further rfl child mem)
          (fun inner inside => enters inner (mem_preorder_of_mem_children mem inside))
          fun inner inside => leaves inner (mem_preorder_of_mem_children mem inside)
      refine children.bind fun all _ => ?_
      cases all with
      | false => exact Step.ensures_pure trivial
      | true => exact leave

/-- A tour keeps what entering and leaving the nodes of the tree keep. -/
theorem Node.tour_ensures {ε σ : Type} {keeps : σ → Prop} {visitor : Visitor ε σ} {node : Node}
    (enters : ∀ inner ∈ node.preorder, Step.Keeps keeps (visitor.enter inner))
    (leaves : ∀ inner ∈ node.preorder, Step.Keeps keeps (visitor.leave inner)) :
    Step.Keeps keeps (node.tour visitor) :=
  @Node.tour_ensures_reaching _ _ _ _ (fun _ => True) _ trivial
    (fun inner mem _ => (enters inner mem).imp fun _ _ _ _ _ => trivial)
    fun inner mem _ => leaves inner mem

end DeclLang
