import DeclLang.Names.Namespace
import DeclLang.Proofs.Places
import DeclLang.Proofs.Repetitions
import DeclLang.Proofs.StepInvariants

/-!
# The registrations of a tree

**Input.**  A tree, and the names of the declarations around it.

**Algorithm.**  `Node.registrations` lists what the tour of the tree registers, in the order of the
tour, without carrying a table.

**Results.**
* `Namespace.build_eq`: the namespace of a tree is filled with these registrations, one by one.
* `Namespace.getElem?_of_build`: it holds exactly what was registered.
* `Namespace.build_error_iff`: filling it fails at the first registration whose kind and path were
  registered before.
-/

namespace DeclLang

/-- One entry of a namespace. -/
structure Registration where
  kind : NameKind
  path : String
  id : NodeId
  deriving DecidableEq, Repr

/-- What no two registrations may have in common. -/
def Registration.key (registration : Registration) : NameKind × String :=
  (registration.kind, registration.path)

namespace Node

/-- What is registered when the tour enters the node. -/
def entered (enclosing : List String) (node : Node) : List Registration :=
  match node.kind with
  | .functionDecl name .. | .parameter name .. | .variableDecl name .. =>
    [⟨.value, Path.qualify enclosing name, node.id⟩]
  | .recordDecl name .. =>
    if StaticType.builtinNames.contains name then [⟨.type, Path.qualify enclosing name, node.id⟩]
    else [⟨.type, Path.qualify enclosing name, node.id⟩,
      ⟨.value, Path.qualify enclosing name, node.id⟩]
  | .enumerationDecl name .. => [⟨.type, Path.qualify enclosing name, node.id⟩]
  | _ => []

/-- What is registered for a case of an enumeration. -/
def caseRegistration? (enclosing : List String) (member : Node) : Option Registration :=
  match member.kind with
  | .enumerationCase name _ => some ⟨.value, Path.qualify enclosing name, member.id⟩
  | _ => none

/-- What is registered when the tour leaves the node. -/
def left (enclosing : List String) (node : Node) : List Registration :=
  match node.kind with
  | .enumerationDecl name _ cases => cases.filterMap (caseRegistration? (enclosing ++ [name]))
  | _ => []

/-- The children of the node have paths. -/
def opensPaths (node : Node) : Bool :=
  match node.kind with
  | .program _ | .namespaceDecl .. | .functionDecl .. | .recordDecl .. => true
  | _ => false

/-- The registrations of a tree among declarations with the given names, in the order of the
tour. -/
def registrations (enclosing : List String) (node : Node) : List Registration :=
  node.entered enclosing ++
    (if node.opensPaths then
      node.children.attach.flatMap fun ⟨child, _⟩ =>
        child.registrations (enclosing ++ node.qualifier?.toList)
    else []) ++
    node.left enclosing
termination_by sizeOf node
decreasing_by exact sizeOf_lt_of_mem_children ‹_›

theorem registrations_eq (enclosing : List String) (node : Node) :
    node.registrations enclosing =
      node.entered enclosing ++
        (if node.opensPaths then
          node.children.flatMap (registrations (enclosing ++ node.qualifier?.toList))
        else []) ++
        node.left enclosing := by
  rw [registrations]
  simp [List.flatMap_subtype]

end Node

namespace Namespace

/-- Adds one registration. -/
def add (names : Namespace) (registration : Registration) : Except Collision Namespace :=
  names.register registration.kind registration.path registration.id

section Add

variable {names added full : Namespace} {registration : Registration}
  {registrations : List Registration}

theorem add_ok (fresh : (names.table registration.kind)[registration.path]? = none) :
    ∃ added, names.add registration = .ok added := by
  obtain ⟨kind, path, id⟩ := registration
  unfold add register
  dsimp only at fresh ⊢
  rw [fresh]
  cases kind <;> exact ⟨_, rfl⟩

theorem add_known {first : NodeId}
    (known : (names.table registration.kind)[registration.path]? = some first) :
    names.add registration =
      .error ⟨registration.kind, registration.path, first, registration.id⟩ := by
  unfold add register
  rw [known]

/-- Adding a registration only changes what its kind and path stand for. -/
theorem getElem?_add (ok : names.add registration = .ok added) (kind : NameKind) (path : String) :
    (added.table kind)[path]? =
      if (kind, path) = registration.key then some registration.id
      else (names.table kind)[path]? := by
  obtain ⟨own, here, id⟩ := registration
  unfold add register at ok
  dsimp only [Registration.key] at ok ⊢
  split at ok
  · cases ok
  all_goals
    cases ok
    cases kind <;>
      simp [table, Std.TreeMap.getElem?_insert, @eq_comm _ path here]

theorem fresh_of_add (ok : names.add registration = .ok added) :
    (names.table registration.kind)[registration.path]? = none := by
  cases known : (names.table registration.kind)[registration.path]? with
  | none => rfl
  | some first =>
    rw [add_known known] at ok
    cases ok

/-- Registrations with distinct kinds and paths that the namespace does not have yet can all be
added. -/
theorem foldlM_add_ok (distinct : (registrations.map Registration.key).Nodup)
    (fresh : ∀ registration ∈ registrations,
      (names.table registration.kind)[registration.path]? = none) :
    ∃ full, registrations.foldlM add names = .ok full := by
  induction registrations generalizing names with
  | nil => exact ⟨names, rfl⟩
  | cons registration registrations ih =>
    rw [List.map_cons, List.nodup_cons] at distinct
    obtain ⟨added, ok⟩ := add_ok (fresh registration List.mem_cons_self)
    rw [List.foldlM_cons, ok]
    refine ih distinct.2 fun other mem => ?_
    rw [getElem?_add ok, if_neg, fresh other (List.mem_cons_of_mem _ mem)]
    intro same
    exact distinct.1 (List.mem_map.2 ⟨other, mem, same⟩)

/-- Registrations that can all be added have distinct kinds and paths, and the namespace had none
of them. -/
theorem nodup_of_foldlM_add (ok : registrations.foldlM add names = .ok full) :
    (registrations.map Registration.key).Nodup ∧
      ∀ registration ∈ registrations,
        (names.table registration.kind)[registration.path]? = none := by
  induction registrations generalizing names with
  | nil => simp
  | cons registration registrations ih =>
    rw [List.foldlM_cons] at ok
    cases first : names.add registration with
    | error collision =>
      rw [first] at ok
      cases ok
    | ok added =>
      rw [first] at ok
      obtain ⟨distinct, fresh⟩ := ih ok
      have apart (other : Registration) (mem : other ∈ registrations) :
          other.key ≠ registration.key ∧ (names.table other.kind)[other.path]? = none := by
        have none := fresh other mem
        rw [getElem?_add first] at none
        split at none
        · cases none
        · rename_i different
          exact ⟨different, none⟩
      rw [List.map_cons, List.nodup_cons]
      refine ⟨⟨fun mem => ?_, distinct⟩, fun other mem => ?_⟩
      · obtain ⟨other, inside, same⟩ := List.mem_map.1 mem
        exact (apart other inside).1 same
      · rcases List.mem_cons.1 mem with rfl | mem
        · exact fresh_of_add first
        · exact (apart other mem).2

/-- After all registrations are added, the namespace has them and what it had before. -/
theorem getElem?_foldlM_add (ok : registrations.foldlM add names = .ok full) (kind : NameKind)
    (path : String) (id : NodeId) :
    (full.table kind)[path]? = some id ↔
      ⟨kind, path, id⟩ ∈ registrations ∨ (names.table kind)[path]? = some id := by
  induction registrations generalizing names with
  | nil =>
    cases ok
    simp
  | cons registration registrations ih =>
    have distinct := (nodup_of_foldlM_add ok).2 registration List.mem_cons_self
    rw [List.foldlM_cons] at ok
    cases first : names.add registration with
    | error collision =>
      rw [first] at ok
      cases ok
    | ok added =>
      rw [first] at ok
      rw [ih ok, getElem?_add first, List.mem_cons]
      by_cases same : (kind, path) = registration.key
      · obtain ⟨own, here, other⟩ := registration
        cases same
        dsimp only [Registration.key] at distinct ⊢
        simp [distinct, or_comm, eq_comm]
      · have different : ⟨kind, path, id⟩ ≠ registration := by
          rintro rfl
          exact same rfl
        simp [same, different]

end Add

/-- At a place among these declarations, the step makes these registrations, one by one, and comes
to another place; or it fails with the first of them that collides. -/
def Registers {α : Type} (step : Step Collision Progress α) (enclosing reached : List String)
    (registrations : List Registration) (a : α) : Prop :=
  ∀ names, match registrations.foldlM add names with
    | .ok names' => step { names, enclosing } = (.ok a, { names := names', enclosing := reached })
    | .error collision => (step { names, enclosing }).1 = .error collision

section Tours

variable {α β : Type} {enclosing middle reached : List String}
  {first second : List Registration} {a : α} {b : β}

theorem registers_nil {step : Step Collision Progress α}
    (h : ∀ names, step { names, enclosing } = (.ok a, { names, enclosing := reached })) :
    Registers step enclosing reached [] a :=
  h

theorem Registers.bind {step : Step Collision Progress α} {next : α → Step Collision Progress β}
    (start : Registers step enclosing middle first a)
    (rest : Registers (next a) middle reached second b) :
    Registers (step >>= next) enclosing reached (first ++ second) b := by
  intro names
  have start := start names
  rw [List.foldlM_append]
  cases added : first.foldlM add names with
  | error collision =>
    rw [added] at start
    exact Step.bind_fst_error start
  | ok full =>
    rw [added] at start
    rw [Step.bind_ok start]
    exact rest full

theorem declare_registers (kind : NameKind) (name : String) (id : NodeId) :
    Registers (declare kind name id) enclosing enclosing
      [⟨kind, Path.qualify enclosing name, id⟩] () := by
  intro names
  have current : (get : Step Collision Progress Progress) { names, enclosing } =
    (.ok { names, enclosing }, { names, enclosing }) := rfl
  unfold declare
  rw [List.foldlM_cons, Step.bind_ok current]
  dsimp only [add]
  cases names.register kind (Path.qualify enclosing name) id <;> rfl

theorem openDeclaration_registers (name : String) :
    Registers (openDeclaration name) enclosing (enclosing ++ [name]) [] () :=
  registers_nil fun _ => rfl

theorem closeDeclaration_registers (name : String) :
    Registers closeDeclaration (enclosing ++ [name]) enclosing [] () :=
  registers_nil fun names => by
    have inner : (enclosing ++ [name]).dropLast = enclosing := List.dropLast_concat
    conv_rhs => rw [← inner]
    rfl

theorem enter_registers (node : Node) :
    Registers (visitor.enter node) enclosing (enclosing ++ node.qualifier?.toList)
      (node.entered enclosing) (if node.opensPaths then .descend else .pass) := by
  have stays (direction : Direction) : Registers (pure direction) enclosing (enclosing ++ []) []
      direction := by
    rw [List.append_nil]
    exact registers_nil fun _ => rfl
  obtain ⟨id, kind⟩ := node
  cases kind with
  | namespaceDecl name declarations =>
    exact (openDeclaration_registers name).bind (registers_nil fun _ => rfl)
  | functionDecl name generics parameters returnType body =>
    exact (declare_registers .value name id).bind
      ((openDeclaration_registers name).bind (registers_nil fun _ => rfl))
  | parameter name type default? =>
    exact (declare_registers .value name id).bind (stays _)
  | variableDecl name type? initializer? =>
    exact (declare_registers .value name id).bind (stays _)
  | recordDecl name generics declarations =>
    have opened : Registers (do openDeclaration name; return .descend) enclosing
        (enclosing ++ [name]) [] Direction.descend :=
      (openDeclaration_registers name).bind (registers_nil fun _ => rfl)
    by_cases builtin : StaticType.builtinNames.contains name
    · simp only [visitor, Node.entered, Node.kind_mk, builtin]
      exact (declare_registers .type name id).bind opened
    · simp only [visitor, Node.entered, Node.kind_mk, builtin]
      exact (declare_registers .type name id).bind ((declare_registers .value name id).bind opened)
  | enumerationDecl name generics cases =>
    exact (declare_registers .type name id).bind
      ((openDeclaration_registers name).bind (registers_nil fun _ => rfl))
  | _ => exact stays _

/-- The cases of an enumeration are registered one after the other. -/
theorem cases_register (cases : List Node) :
    Registers (forIn cases PUnit.unit fun member _ => do
        match member.kind with
        | .enumerationCase name _ => declare .value name member.id
        | _ => pure ()
        pure (ForInStep.yield PUnit.unit) : Step Collision Progress PUnit)
      enclosing enclosing (cases.filterMap (Node.caseRegistration? enclosing)) PUnit.unit := by
  induction cases with
  | nil => exact registers_nil fun _ => rfl
  | cons member cases ih =>
    obtain ⟨id, kind⟩ := member
    rw [List.forIn_cons]
    cases kind with
    | enumerationCase name values =>
      have here : Registers (do declare .value name id; pure (ForInStep.yield PUnit.unit))
          enclosing enclosing [⟨.value, Path.qualify enclosing name, id⟩]
          (ForInStep.yield PUnit.unit) :=
        (declare_registers .value name id).bind (registers_nil fun _ => rfl)
      exact here.bind ih
    | _ => exact ih

theorem leave_registers (node : Node) :
    Registers (visitor.leave node) (enclosing ++ node.qualifier?.toList) enclosing
      (node.left enclosing) () := by
  have stays : Registers (pure ()) (enclosing ++ []) enclosing [] () := by
    rw [List.append_nil]
    exact registers_nil fun _ => rfl
  obtain ⟨id, kind⟩ := node
  cases kind with
  | enumerationDecl name generics cases =>
    have closed : Registers (visitor.leave ⟨id, .enumerationDecl name generics cases⟩)
        (enclosing ++ [name]) enclosing
        (cases.filterMap (Node.caseRegistration? (enclosing ++ [name])) ++ []) () :=
      (cases_register cases).bind (closeDeclaration_registers name)
    rw [List.append_nil] at closed
    exact closed
  | namespaceDecl name declarations => exact closeDeclaration_registers name
  | functionDecl name generics parameters returnType body => exact closeDeclaration_registers name
  | recordDecl name generics declarations => exact closeDeclaration_registers name
  | _ => exact stays

theorem siblings_register {siblings : List Node}
    (each : ∀ sibling ∈ siblings, Registers (sibling.tour visitor) enclosing enclosing
      (sibling.registrations enclosing) true) :
    Registers (siblings.allM (Node.tour visitor)) enclosing enclosing
      (siblings.flatMap (Node.registrations enclosing)) true := by
  induction siblings with
  | nil => exact registers_nil fun _ => rfl
  | cons sibling siblings ih =>
    rw [List.allM, List.flatMap_cons]
    exact (each sibling List.mem_cons_self).bind
      (ih fun other mem => each other (List.mem_cons_of_mem _ mem))

/-- The tour of a tree makes its registrations and comes back to where it started. -/
theorem tour_registers (node : Node) :
    Registers (node.tour visitor) enclosing enclosing (node.registrations enclosing) true := by
  induction node using Node.children_induction generalizing enclosing with
  | step node ih =>
    have ends : Registers (do visitor.leave node; return true)
        (enclosing ++ node.qualifier?.toList) enclosing (node.left enclosing ++ []) true :=
      (leave_registers node).bind (registers_nil fun _ => rfl)
    rw [List.append_nil] at ends
    rw [Node.tour_eq, Node.registrations_eq, List.append_assoc]
    refine (enter_registers node).bind ?_
    cases opens : node.opensPaths with
    | false => exact ends
    | true => exact (siblings_register fun child mem => ih child mem).bind ends

end Tours

variable {root : Node} {names : Namespace}

/-- The namespace of a tree is filled with the registrations of the tree, one by one. -/
theorem build_eq (root : Node) : build root = (root.registrations []).foldlM add {} := by
  have toured : Registers (root.tour visitor) [] [] (root.registrations []) true :=
    tour_registers root
  have toured := toured {}
  unfold build
  rcases ran : root.tour visitor {} with ⟨outcome, progress⟩
  cases added : (root.registrations []).foldlM add {} with
  | ok full =>
    rw [added] at toured
    cases ran.symm.trans toured
    rfl
  | error collision =>
    rw [added] at toured
    cases (congrArg Prod.fst ran).symm.trans toured
    rfl

/-- A tree has a namespace exactly if no two registrations share kind and path. -/
theorem build_ok_iff :
    (∃ names, build root = .ok names) ↔
      ((root.registrations []).map Registration.key).Nodup := by
  rw [build_eq]
  constructor
  · rintro ⟨names, ok⟩
    exact (nodup_of_foldlM_add ok).1
  · intro distinct
    exact foldlM_add_ok distinct fun registration _ => by cases registration.kind <;> rfl

/-- The namespace of a tree holds exactly the registrations of the tree. -/
theorem getElem?_of_build (built : build root = .ok names) (kind : NameKind) (path : String)
    (id : NodeId) :
    (names.table kind)[path]? = some id ↔ ⟨kind, path, id⟩ ∈ root.registrations [] := by
  rw [build_eq] at built
  have empty : (({} : Namespace).table kind)[path]? = none := by cases kind <;> rfl
  simp [getElem?_foldlM_add built, empty]

theorem firstRepetition_of_build_error {collision : Collision}
    (failed : build root = .error collision) :
    ∃ before first second,
      FirstRepetition Registration.key (root.registrations []) before second ∧
      first ∈ before ∧ first.key = second.key ∧
      collision = ⟨second.kind, second.path, first.id, second.id⟩ := by
  rw [build_eq] at failed
  obtain ⟨before, second, after, full, whole, ok, refused⟩ := foldlM_error_inv failed
  have empty : (({} : Namespace).table second.kind)[second.path]? = none := by
    cases second.kind <;> rfl
  cases known : (full.table second.kind)[second.path]? with
  | none =>
    obtain ⟨added, accepted⟩ := add_ok known
    rw [accepted] at refused
    cases refused
  | some id =>
    rw [add_known known] at refused
    cases refused
    have there := (getElem?_foldlM_add ok second.kind second.path id).1 known
    rw [empty] at there
    have mem : ⟨second.kind, second.path, id⟩ ∈ before := by simpa using there
    exact ⟨before, _, second,
      ⟨⟨after, whole⟩, (nodup_of_foldlM_add ok).1, List.mem_map.2 ⟨_, mem, rfl⟩⟩, mem, rfl, rfl⟩

/-- Filling the namespace fails at the first registration whose kind and path were registered
before. -/
theorem build_error_iff {collision : Collision} :
    build root = .error collision ↔
      ∃ before first second,
        FirstRepetition Registration.key (root.registrations []) before second ∧
        first ∈ before ∧ first.key = second.key ∧
        collision = ⟨second.kind, second.path, first.id, second.id⟩ := by
  constructor
  · exact firstRepetition_of_build_error
  · rintro ⟨before, first, second, repetition, mem, same, rfl⟩
    cases built : build root with
    | ok names =>
      exact absurd (build_ok_iff.1 ⟨names, built⟩)
        (exists_firstRepetition.1 ⟨_, _, repetition⟩)
    | error collision =>
      obtain ⟨others, found, again, other, there, alike, rfl⟩ :=
        firstRepetition_of_build_error built
      obtain ⟨rfl, rfl⟩ := repetition.unique other
      have one : first = found :=
        List.inj_on_of_nodup_map repetition.distinct mem there (same.trans alike.symm)
      rw [one]

end Namespace

end DeclLang
