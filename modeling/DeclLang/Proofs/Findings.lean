import DeclLang.Proofs.LexicalResolution
import DeclLang.Proofs.Reordering

/-!
# What the tour of a tree finds out about references

**Input.**  A tree that is orderly at its place, the tables of a namespace, and what can be looked
up where the tree stands.

**Algorithm.**  `Scope.findings` lists what the tour finds out, in the order of the tour.  It looks
names up in an outlook, which is a pair of functions and the names of the enclosing declarations,
and not in stacks of frames.

**Results.**
* `Scope.tour_finds`: the tour comes to its end, binds `Node.bindings`, and notes the findings.
* `Scope.known_foldl_note`, `Scope.undefined_foldl_note`: what is known once they are noted.
-/

namespace DeclLang

namespace ScopeStack

variable {α : Type} (stack : ScopeStack α) (name : String)

@[simp] theorem lookup_push : stack.push.lookup name = stack.lookup name := by
  unfold lookup push
  rw [List.findSome?_cons, Std.TreeMap.getElem?_emptyc]

theorem lookup_pushFrame (bindings : List (String × α)) :
    (stack.pushFrame bindings).lookup name =
      (bindings.reverse.lookup name).or (stack.lookup name) := by
  unfold lookup pushFrame
  rw [List.findSome?_cons, getElem?_foldl_insert, Std.TreeMap.getElem?_emptyc, Option.or_none]
  cases bindings.reverse.lookup name <;> rfl

theorem lookup_bindAll {stack : ScopeStack α} (opened : stack.frames ≠ [])
    (bindings : List (String × α)) :
    (stack.bindAll bindings).lookup name =
      (bindings.reverse.lookup name).or (stack.lookup name) := by
  obtain ⟨frames⟩ := stack
  cases frames with
  | nil => exact absurd rfl opened
  | cons frame outer =>
    unfold lookup bindAll
    rw [List.findSome?_cons, List.findSome?_cons, getElem?_foldl_insert]
    cases bindings.reverse.lookup name <;> rfl

end ScopeStack

/-- What the paths of a namespace stand for. -/
def Namespace.lookup (names : Namespace) (kind : NameKind) (path : String) : Option NodeId :=
  (names.table kind)[path]?

namespace Scope

/-- The kinds of references. -/
inductive ReferenceKind where
  | identifier
  | member
  | typeName
  deriving DecidableEq

/-- What is found out about a reference: the declaration that it stands for, if there is one. -/
structure Finding where
  kind : ReferenceKind
  id : NodeId
  declaration? : Option NodeId
  deriving DecidableEq

/-- A reference is noted as resolved or as undefined. -/
def note (scope : Scope) (finding : Finding) : Scope :=
  match finding.kind, finding.declaration? with
  | .identifier, some declaration =>
    { scope with identifiers := scope.identifiers.insert finding.id declaration }
  | .identifier, none =>
    { scope with undefinedIdentifiers := scope.undefinedIdentifiers.insert finding.id }
  | .member, some declaration =>
    { scope with members := scope.members.insert finding.id declaration }
  | .member, none => { scope with undefinedMembers := scope.undefinedMembers.insert finding.id }
  | .typeName, some declaration =>
    { scope with typeNames := scope.typeNames.insert finding.id declaration }
  | .typeName, none => { scope with undefinedTypes := scope.undefinedTypes.insert finding.id }

/-- What can be looked up at a place, and the names of the declarations around it. -/
structure Outlook where
  values : String → Option NodeId
  types : String → Option NodeId
  enclosing : List String

/-- What the last of several bindings says, or else what was known before. -/
def rebound (bindings : List (String × NodeId)) (known : String → Option NodeId) (name : String) :
    Option NodeId :=
  (bindings.reverse.lookup name).or (known name)

/-- The outlook after names are bound. -/
def Outlook.bind (outlook : Outlook) (bindings : List (String × NodeId)) : Outlook :=
  { outlook with values := rebound bindings outlook.values }

section Findings

variable (tables : NameKind → String → Option NodeId)

/-- What a name stands for as a direct member of a declaration. -/
def memberIn (kind : NameKind) (enclosing : List String) (name : String) : Option NodeId :=
  if '.' ∈ name.toList then none else tables kind (Path.join enclosing ++ "." ++ name)

/-- What a path stands for relative to the enclosing declarations, from the inside out. -/
def relativeTo (kind : NameKind) (enclosing : List String) (path : String) : Option NodeId :=
  (List.range (enclosing.length + 1)).reverse.findSome? fun depth =>
    tables kind (Path.qualify (enclosing.take depth) path)

/-- The outlook at the first child of a node. -/
def Outlook.inside (outlook : Outlook) (node : Node) : Outlook :=
  match node.kind with
  | .namespaceDecl name _ =>
    let enclosing := outlook.enclosing ++ [name]
    { values := fun name => (memberIn tables .value enclosing name).or (outlook.values name)
      types := fun name => (memberIn tables .type enclosing name).or (outlook.types name)
      enclosing }
  | .functionDecl name generics .. =>
    { values := rebound [(name, node.id)] outlook.values
      types := rebound (genericBindings generics) outlook.types
      enclosing := outlook.enclosing ++ [name] }
  | .recordDecl name generics _ | .enumerationDecl name generics _ =>
    { outlook with
      types := rebound (genericBindings generics) outlook.types
      enclosing := outlook.enclosing ++ [name] }
  | _ => outlook

/-- What is found out about the node itself. -/
def ownFindings (outlook : Outlook) (node : Node) : List Finding :=
  match node.kind with
  | .identifier name => [⟨.identifier, node.id, outlook.values name⟩]
  | .member .. =>
    [⟨.member, node.id, node.dottedPath?.bind (relativeTo tables .value outlook.enclosing)⟩]
  | .typeName name _ =>
    [⟨.typeName, node.id,
      (outlook.types name).or (relativeTo tables .type outlook.enclosing name)⟩]
  | _ => []

/-- What is found out about siblings one after the other, each of which binds some names. -/
def along {α : Type} (bindings : α → List (String × NodeId)) (look : Outlook → α → List Finding) :
    Outlook → List α → List Finding
  | _, [] => []
  | outlook, sibling :: siblings =>
    look outlook sibling ++ along bindings look (outlook.bind (bindings sibling)) siblings

/-- What the tour of a tree finds out about the references in it, in the order of the tour.  Nothing
is found out about what a member expression is made of. -/
def findings (outlook : Outlook) (node : Node) : List Finding :=
  ownFindings tables outlook node ++ if node.isMember then [] else
    along (fun child => child.1.bindings) (fun outlook child => findings outlook child.1)
      (outlook.inside tables node) node.children.attach
termination_by sizeOf node
decreasing_by exact Node.sizeOf_lt_of_mem_children child.2

private theorem along_subtype {α : Type} {p : α → Prop} (bindings : α → List (String × NodeId))
    (look : Outlook → α → List Finding) (siblings : List { a // p a }) (outlook : Outlook) :
    along (fun sibling => bindings sibling.1) (fun outlook sibling => look outlook sibling.1)
      outlook siblings = along bindings look outlook (siblings.map Subtype.val) := by
  induction siblings generalizing outlook with
  | nil => rfl
  | cons sibling siblings ih => rw [along, List.map_cons, along, ih]

theorem findings_eq (outlook : Outlook) (node : Node) :
    findings tables outlook node =
      ownFindings tables outlook node ++ if node.isMember then [] else
        along Node.bindings (findings tables) (outlook.inside tables node) node.children := by
  rw [findings, along_subtype Node.bindings (findings tables), List.attach_map_subtype_val]

end Findings

section Notes

/-- What is known about references of one kind. -/
def known (scope : Scope) : ReferenceKind → Std.TreeMap NodeId NodeId
  | .identifier => scope.identifiers
  | .member => scope.members
  | .typeName => scope.typeNames

/-- The undefined references of one kind. -/
def undefined (scope : Scope) : ReferenceKind → Std.TreeSet NodeId
  | .identifier => scope.undefinedIdentifiers
  | .member => scope.undefinedMembers
  | .typeName => scope.undefinedTypes

theorem known_note (scope : Scope) (finding : Finding) (kind : ReferenceKind) (id : NodeId) :
    ((scope.note finding).known kind)[id]? =
      if kind = finding.kind ∧ id = finding.id then
        finding.declaration?.or (scope.known kind)[id]?
      else (scope.known kind)[id]? := by
  obtain ⟨own, reference, declaration?⟩ := finding
  cases own <;> cases declaration? <;> cases kind <;>
    simp [note, known, Std.TreeMap.getElem?_insert, @eq_comm _ id reference]

theorem undefined_note (scope : Scope) (finding : Finding) (kind : ReferenceKind) (id : NodeId) :
    id ∈ (scope.note finding).undefined kind ↔
      finding = ⟨kind, id, none⟩ ∨ id ∈ scope.undefined kind := by
  obtain ⟨own, reference, declaration?⟩ := finding
  cases own <;> cases declaration? <;> cases kind <;> simp [note, undefined]

theorem undefined_foldl_note (found : List Finding) (scope : Scope) (kind : ReferenceKind)
    (id : NodeId) :
    id ∈ (found.foldl note scope).undefined kind ↔
      ⟨kind, id, none⟩ ∈ found ∨ id ∈ scope.undefined kind := by
  induction found generalizing scope with
  | nil => simp
  | cons finding found ih =>
    rw [List.foldl_cons, ih, undefined_note, List.mem_cons, @eq_comm _ finding]
    grind

/-- Findings about different references are all noted. -/
theorem known_foldl_note {found : List Finding} (distinct : (found.map Finding.id).Nodup)
    {scope : Scope} {kind : ReferenceKind}
    (fresh : ∀ finding ∈ found, (scope.known kind)[finding.id]? = none)
    (id declaration : NodeId) :
    ((found.foldl note scope).known kind)[id]? = some declaration ↔
      ⟨kind, id, some declaration⟩ ∈ found ∨ (scope.known kind)[id]? = some declaration := by
  induction found generalizing scope with
  | nil => simp
  | cons finding found ih =>
    rw [List.map_cons, List.nodup_cons] at distinct
    have own := fresh finding List.mem_cons_self
    rw [List.foldl_cons, ih distinct.2, known_note, List.mem_cons]
    · obtain ⟨other, reference, declaration?⟩ := finding
      dsimp only at own ⊢
      by_cases here : kind = other ∧ id = reference
      · obtain ⟨rfl, rfl⟩ := here
        rw [if_pos ⟨rfl, rfl⟩, own, Option.or_none]
        simp only [Finding.mk.injEq, true_and]
        grind
      · rw [if_neg here]
        grind
    · intro other mem
      rw [known_note, if_neg, fresh other (List.mem_cons_of_mem _ mem)]
      rintro ⟨-, same⟩
      exact distinct.1 (List.mem_map.2 ⟨other, mem, same⟩)

@[simp] theorem foldl_note_values (found : List Finding) (scope : Scope)
    (values : ScopeStack NodeId) :
    found.foldl note { scope with values } = { found.foldl note scope with values } := by
  induction found generalizing scope with
  | nil => rfl
  | cons finding found ih =>
    have first : note { scope with values } finding = { note scope finding with values } := by
      obtain ⟨kind, id, declaration?⟩ := finding
      cases kind <;> cases declaration? <;> rfl
    rw [List.foldl_cons, List.foldl_cons, first, ih]

@[simp] theorem foldl_note_types (found : List Finding) (scope : Scope)
    (types : ScopeStack NodeId) :
    found.foldl note { scope with types } = { found.foldl note scope with types } := by
  induction found generalizing scope with
  | nil => rfl
  | cons finding found ih =>
    have first : note { scope with types } finding = { note scope finding with types } := by
      obtain ⟨kind, id, declaration?⟩ := finding
      cases kind <;> cases declaration? <;> rfl
    rw [List.foldl_cons, List.foldl_cons, first, ih]

end Notes

/-- The outlook shows what the stacks of the tour show, where no field waits. -/
structure Sees (progress : Progress) (outlook : Outlook) : Prop where
  opened : progress.scope.values.frames ≠ []
  values : ∀ name, progress.scope.values.lookup name = outlook.values name
  types : ∀ name, progress.scope.types.lookup name = outlook.types name
  enclosing : progress.enclosing = outlook.enclosing
  fields : progress.fields = []

/-- The tour has noted findings and bound names in the innermost scope, and left all else as it
was. -/
structure Finds (found : List Finding) (made : List (String × NodeId)) (before after : Progress) :
    Prop where
  scope : after.scope =
    { found.foldl note before.scope with values := before.scope.values.bindAll made }
  enclosing : after.enclosing = before.enclosing
  openRecords : after.openRecords = before.openRecords
  fields : after.fields = before.fields

namespace Finds

variable {found more : List Finding} {made later : List (String × NodeId)}
  {before middle after : Progress}

theorem types_foldl_note (found : List Finding) (scope : Scope) :
    (found.foldl note scope).types = scope.types := by
  have same := foldl_note_types found scope scope.types
  exact (congrArg Scope.types same : _)

theorem values (h : Finds found made before after) :
    after.scope.values = before.scope.values.bindAll made := by
  rw [h.scope]

theorem types (h : Finds found made before after) : after.scope.types = before.scope.types := by
  rw [h.scope]
  exact types_foldl_note found before.scope

theorem refl (progress : Progress) : Finds [] [] progress progress where
  scope := by rw [ScopeStack.bindAll_nil]; rfl
  enclosing := rfl
  openRecords := rfl
  fields := rfl

theorem trans (first : Finds found made before middle) (second : Finds more later middle after) :
    Finds (found ++ more) (made ++ later) before after where
  scope := by
    rw [second.scope, first.scope, foldl_note_values, List.foldl_append, ScopeStack.bindAll_append]
  enclosing := second.enclosing.trans first.enclosing
  openRecords := second.openRecords.trans first.openRecords
  fields := second.fields.trans first.fields

/-- What was bound can be looked up. -/
theorem sees (h : Finds found made before after) {outlook : Outlook} (sees : Sees before outlook) :
    Sees after (outlook.bind made) where
  opened := by
    rw [h.values]
    exact ScopeStack.frames_bindAll_ne_nil sees.opened made
  values name := by
    rw [h.values, ScopeStack.lookup_bindAll name sees.opened, sees.values]
    rfl
  types name := by rw [h.types, sees.types]; rfl
  enclosing := h.enclosing.trans sees.enclosing
  fields := h.fields.trans sees.fields

end Finds

section References

variable {progress : Progress} {outlook : Outlook} {id : NodeId}

theorem resolveIdentifier_finds (sees : Sees progress outlook) (name : String) :
    ∃ after, resolveIdentifier id name progress = (.ok (), after) ∧
      Finds [⟨.identifier, id, outlook.values name⟩] [] progress after := by
  cases found : progress.scope.values.lookup name with
  | some declaration =>
    refine ⟨_, resolveIdentifier_some found, { Finds.refl progress with scope := ?_ }⟩
    rw [← sees.values, found, ScopeStack.bindAll_nil]
    rfl
  | none =>
    refine ⟨_, resolveIdentifier_none found, { Finds.refl progress with scope := ?_ }⟩
    rw [← sees.values, found, ScopeStack.bindAll_nil]
    rfl

variable (names : Namespace)

theorem resolveMember_finds (sees : Sees progress outlook) (node : Node) (member : String) :
    ∃ after, resolveMember names node member progress = (.ok (), after) ∧
      Finds [⟨.member, node.id,
        node.dottedPath?.bind (relativeTo names.lookup .value outlook.enclosing)⟩] [] progress
        after := by
  have current : (get : Resolving Progress) progress = (.ok progress, progress) := rfl
  have same : relativeTo names.lookup .value outlook.enclosing =
      lookupQualified names.values progress.enclosing := by
    rw [sees.enclosing]
    rfl
  unfold resolveMember
  rw [Step.bind_ok current, same]
  cases node.dottedPath?.bind (lookupQualified names.values progress.enclosing) with
  | some declaration =>
    refine ⟨_, rfl, { Finds.refl progress with scope := ?_ }⟩
    rw [ScopeStack.bindAll_nil]
    rfl
  | none =>
    refine ⟨_, rfl, { Finds.refl progress with scope := ?_ }⟩
    rw [ScopeStack.bindAll_nil]
    rfl

theorem resolveTypeName_finds (sees : Sees progress outlook) (name : String) :
    ∃ after, resolveTypeName names id name progress = (.ok (), after) ∧
      Finds [⟨.typeName, id, (outlook.types name).or
        (relativeTo names.lookup .type outlook.enclosing name)⟩] [] progress after := by
  have current : (get : Resolving Progress) progress = (.ok progress, progress) := rfl
  have same : (outlook.types name).or (relativeTo names.lookup .type outlook.enclosing name) =
      (progress.scope.types.lookup name).or
        (lookupQualified names.types progress.enclosing name) := by
    rw [sees.types, sees.enclosing]
    rfl
  unfold resolveTypeName
  rw [Step.bind_ok current, same]
  cases (progress.scope.types.lookup name).or
      (lookupQualified names.types progress.enclosing name) with
  | some declaration =>
    refine ⟨_, rfl, { Finds.refl progress with scope := ?_ }⟩
    rw [ScopeStack.bindAll_nil]
    rfl
  | none =>
    refine ⟨_, rfl, { Finds.refl progress with scope := ?_ }⟩
    rw [ScopeStack.bindAll_nil]
    rfl

end References

section Tours

variable (names : Namespace)

/-- The tour of the node comes to its end, notes what there is to find out, and binds what the node
has bound.  Variables wait in records, so the tour of one is not started there. -/
def TourFinds (inRecord : Bool) (node : Node) : Prop :=
  ∀ before outlook, Sees before outlook → (inRecord = false → before.openRecords = 0) →
    ∃ after, node.tour (visitor names none) before = (.ok true, after) ∧
      Finds (findings names.lookup outlook node) node.bindings before after

variable {names} {inRecord : Bool} {node : Node}

theorem siblings_find {siblings : List Node}
    (each : ∀ sibling ∈ siblings, TourFinds names inRecord sibling) {before : Progress}
    {outlook : Outlook} (sees : Sees before outlook)
    (outside : inRecord = false → before.openRecords = 0) :
    ∃ after, siblings.allM (Node.tour (visitor names none)) before = (.ok true, after) ∧
      Finds (along Node.bindings (findings names.lookup) outlook siblings)
        (siblings.flatMap Node.bindings) before after := by
  induction siblings generalizing before outlook with
  | nil => exact ⟨before, rfl, .refl before⟩
  | cons sibling siblings ih =>
    obtain ⟨middle, toured, first⟩ := each sibling List.mem_cons_self before outlook sees outside
    obtain ⟨after, rest, second⟩ := ih (fun other mem => each other (List.mem_cons_of_mem _ mem))
      (first.sees sees) fun same => first.openRecords.trans (outside same)
    refine ⟨after, ?_, first.trans second⟩
    rw [List.allM, Step.bind_ok toured]
    exact rest

/-- A node that opens and binds nothing itself. -/
theorem plain_finds
    (enters : ∀ before outlook, Sees before outlook → ∃ entered,
      enter names node before = (.ok .descend, entered) ∧
        Finds (ownFindings names.lookup outlook node) [] before entered)
    (leaves : ∀ touring, leave node touring = (.ok (), touring))
    (other : node.isMember = false)
    (inside : ∀ outlook : Outlook, outlook.inside names.lookup node = outlook)
    (made : node.bindings = node.children.flatMap Node.bindings)
    (below : ∀ child ∈ node.children, TourFinds names inRecord child) :
    TourFinds names inRecord node := by
  intro before outlook sees outside
  obtain ⟨entered, enters, first⟩ := enters before outlook sees
  obtain ⟨touring, toured, second⟩ := siblings_find below (first.sees sees) fun same =>
    first.openRecords.trans (outside same)
  refine ⟨touring, tour_descend enters toured (leaves touring), ?_⟩
  rw [findings_eq, other, inside, made]
  exact first.trans second

/-- A node that is bound after what is inside of it. -/
theorem bound_finds {name : String}
    (enters : ∀ before, enter names node before = (.ok .descend, before))
    (leaves : ∀ touring : Progress, (inRecord = false → touring.openRecords = 0) →
      leave node touring = bindValue name node.id touring)
    (own : ∀ outlook, ownFindings names.lookup outlook node = [])
    (other : node.isMember = false)
    (inside : ∀ outlook : Outlook, outlook.inside names.lookup node = outlook)
    (made : node.bindings = node.children.flatMap Node.bindings ++ [(name, node.id)])
    (below : ∀ child ∈ node.children, TourFinds names inRecord child) :
    TourFinds names inRecord node := by
  intro before outlook sees outside
  obtain ⟨touring, toured, first⟩ := siblings_find below sees outside
  have opened := (first.sees sees).opened
  refine ⟨_, tour_descend (enters before) toured
    ((leaves touring fun same => first.openRecords.trans (outside same)).trans
      (bindValue_ok opened name node.id)), ?_⟩
  rw [findings_eq, own, other, inside, made]
  exact { first with
    scope := by
      dsimp only
      rw [first.scope, ScopeStack.bindAll_append]
      rfl }

/-- What was noted inside of scopes that are closed again. -/
theorem Finds.scope_of_opened {found : List Finding} {made : List (String × NodeId)}
    {before entered touring : Progress} (h : Finds found made entered touring)
    {values types : ScopeStack NodeId}
    (opened : entered.scope = { before.scope with values, types }) (closed : ScopeStack NodeId) :
    { touring.scope with values := closed, types := before.scope.types } =
      { found.foldl note before.scope with values := closed } := by
  have noted := foldl_note_values found { before.scope with types } values
  rw [foldl_note_types] at noted
  have same := Finds.types_foldl_note found before.scope
  rw [h.scope, opened, noted]
  generalize found.foldl note before.scope = scope at same ⊢
  obtain ⟨_, _, _, _, _, _, _, _⟩ := scope
  cases same
  rfl

/-- Nothing is found out about what a member expression is made of. -/
theorem member_finds {id : NodeId} {object : Node} {name : String} :
    TourFinds names inRecord (.mk id (.member object name)) := by
  intro before outlook sees outside
  obtain ⟨entered, enters, first⟩ := resolveMember_finds names sees (.mk id (.member object name))
    name
  have enters : enter names (.mk id (.member object name)) before = (.ok .pass, entered) :=
    (Step.bind_ok enters).trans rfl
  refine ⟨entered, tour_pass enters rfl, ?_⟩
  rw [findings_eq, Node.bindings_eq]
  exact first

section Kinds

variable {id : NodeId} {name : String}
  {generics parameters body block declarations cases : List Node} {returnType condition : Node}

theorem block_finds
    (isBlock : node.kind = .branch condition block ∨ node.kind = .loop condition block)
    (below : ∀ child ∈ node.children, TourFinds names inRecord child) :
    TourFinds names inRecord node := by
  intro before outlook sees outside
  have opened : Sees { before with scope := { before.scope with
      values := before.scope.values.push } } outlook :=
    { sees with
      opened := List.cons_ne_nil _ _
      values := fun name => (ScopeStack.lookup_push _ name).trans (sees.values name) }
  obtain ⟨touring, toured, first⟩ := siblings_find below opened outside
  have values := congrArg ScopeStack.frames first.values
  refine ⟨_, tour_descend (enter_block names isBlock) toured (leave_block isBlock values), ?_⟩
  have made : node.bindings = [] := by
    rw [Node.bindings_eq]
    rcases isBlock with same | same <;> rw [same]
  have own : ownFindings names.lookup outlook node = [] := by
    unfold ownFindings
    rcases isBlock with same | same <;> rw [same]
  have inside : outlook.inside names.lookup node = outlook := by
    unfold Outlook.inside
    rcases isBlock with same | same <;> rw [same]
  have other : node.isMember = false := by
    unfold Node.isMember
    rcases isBlock with same | same <;> rw [same]
  rw [made, findings_eq, own, inside, other]
  have noted := first.scope_of_opened rfl before.scope.values
  have types : touring.scope.types = before.scope.types := first.types
  rw [← types] at noted
  exact { first with
    scope := by
      rw [ScopeStack.bindAll_nil]
      exact noted }

theorem function_finds (below : ∀ child ∈ generics ++ parameters ++ returnType :: body,
      TourFinds names inRecord child) :
    TourFinds names inRecord
      (.mk id (.functionDecl name generics parameters returnType body)) := by
  intro before outlook sees outside
  have opened : Sees { before with
      scope := { before.scope with
        values := (before.scope.values.bindAll [(name, id)]).push
        types := before.scope.types.pushFrame (genericBindings generics) }
      enclosing := before.enclosing ++ [name] }
      (outlook.inside names.lookup
        (.mk id (.functionDecl name generics parameters returnType body))) :=
    { sees with
      opened := List.cons_ne_nil _ _
      values := fun other => by
        rw [ScopeStack.lookup_push, ScopeStack.lookup_bindAll other sees.opened, sees.values]
        rfl
      types := fun other => by
        rw [ScopeStack.lookup_pushFrame, sees.types]
        rfl
      enclosing := congrArg (· ++ [name]) sees.enclosing }
  obtain ⟨touring, toured, first⟩ := siblings_find below opened outside
  have values := congrArg ScopeStack.frames first.values
  have types := congrArg ScopeStack.frames first.types
  refine ⟨_, tour_descend (enter_function names sees.opened) toured (leave_function values types),
    ?_⟩
  rw [findings_eq, Node.bindings_eq]
  exact { first with
    scope := first.scope_of_opened rfl _
    enclosing := by
      dsimp only
      rw [first.enclosing, List.dropLast_concat] }

/-- The members of a declaration are what is registered one name further. -/
theorem lookup_membersOf (kind : NameKind) (enclosing : List String) (member : String) :
    (membersOf (names.table kind) (Path.join enclosing)).reverse.lookup member =
      memberIn names.lookup kind enclosing member := by
  refine lookup_eq_of_mem_iff fun id => ?_
  rw [List.mem_reverse]
  unfold memberIn
  split
  · rename_i dotted
    refine ⟨fun mem => ?_, nofun⟩
    obtain ⟨entry, -, found⟩ := List.mem_filterMap.1 mem
    obtain ⟨name, isMember, same⟩ := Option.map_eq_some_iff.1 found
    cases same
    exact absurd dotted (Path.memberName?_eq_some_iff.1 isMember).2
  · rename_i plain
    exact mem_membersOf plain

theorem namespace_finds (below : ∀ child ∈ declarations, TourFinds names inRecord child) :
    TourFinds names inRecord (.mk id (.namespaceDecl name declarations)) := by
  intro before outlook sees outside
  have opened : Sees { before with
      scope := { before.scope with
        values := before.scope.values.pushFrame
          (membersOf names.values (Path.join (before.enclosing ++ [name])))
        types := before.scope.types.pushFrame
          (membersOf names.types (Path.join (before.enclosing ++ [name]))) }
      enclosing := before.enclosing ++ [name] }
      (outlook.inside names.lookup (.mk id (.namespaceDecl name declarations))) :=
    { sees with
      opened := List.cons_ne_nil _ _
      values := fun member => by
        rw [ScopeStack.lookup_pushFrame, sees.values, sees.enclosing]
        exact congrArg (Option.or · _) (lookup_membersOf .value _ member)
      types := fun member => by
        rw [ScopeStack.lookup_pushFrame, sees.types, sees.enclosing]
        exact congrArg (Option.or · _) (lookup_membersOf .type _ member)
      enclosing := congrArg (· ++ [name]) sees.enclosing }
  obtain ⟨touring, toured, first⟩ := siblings_find below opened outside
  have values := congrArg ScopeStack.frames first.values
  have types := congrArg ScopeStack.frames first.types
  refine ⟨_, tour_descend (enter_namespace names) toured (leave_namespace values types), ?_⟩
  have made : (Node.mk id (.namespaceDecl name declarations)).bindings = [] := Node.bindings_eq _
  rw [findings_eq, made]
  exact { first with
    scope := by
      rw [ScopeStack.bindAll_nil]
      exact first.scope_of_opened rfl _
    enclosing := by
      dsimp only
      rw [first.enclosing, List.dropLast_concat] }

/-- No field waits when a record is left that binds nothing. -/
theorem record_finds (below : ∀ child ∈ generics ++ declarations, TourFinds names true child)
    (made : (generics ++ declarations).flatMap Node.bindings = []) :
    TourFinds names inRecord (.mk id (.recordDecl name generics declarations)) := by
  intro before outlook sees outside
  have opened : Sees { before with
      scope := { before.scope with
        types := before.scope.types.pushFrame (genericBindings generics) }
      enclosing := before.enclosing ++ [name]
      openRecords := before.openRecords + 1 }
      (outlook.inside names.lookup (.mk id (.recordDecl name generics declarations))) :=
    { sees with
      types := fun other => by
        rw [ScopeStack.lookup_pushFrame, sees.types]
        rfl
      enclosing := congrArg (· ++ [name]) sees.enclosing }
  obtain ⟨touring, toured, first⟩ := siblings_find below opened nofun
  have types := congrArg ScopeStack.frames first.types
  have fields : touring.fields = [] := first.fields.trans sees.fields
  have values : touring.scope.values = before.scope.values := by
    rw [first.values, made, ScopeStack.bindAll_nil]
  have stillOpen : touring.scope.values.frames ≠ [] := values ▸ sees.opened
  refine ⟨_, tour_descend (enter_record names) toured (leave_record stillOpen types), ?_⟩
  have made : (Node.mk id (.recordDecl name generics declarations)).bindings = [] :=
    (Node.bindings_eq _).trans made
  rw [findings_eq, made]
  exact {
    scope := by
      dsimp only
      rw [fields, ScopeStack.bindAll_nil, ScopeStack.bindAll_nil, values]
      exact first.scope_of_opened rfl _
    enclosing := by
      dsimp only
      rw [first.enclosing, List.dropLast_concat]
    openRecords := by
      dsimp only
      rw [first.openRecords, Nat.add_sub_cancel]
    fields := sees.fields.symm }

theorem enumeration_finds (below : ∀ child ∈ generics ++ cases, TourFinds names inRecord child)
    (made : (generics ++ cases).flatMap Node.bindings = []) :
    TourFinds names inRecord (.mk id (.enumerationDecl name generics cases)) := by
  intro before outlook sees outside
  have opened : Sees { before with
      scope := { before.scope with
        types := before.scope.types.pushFrame (genericBindings generics) }
      enclosing := before.enclosing ++ [name] }
      (outlook.inside names.lookup (.mk id (.enumerationDecl name generics cases))) :=
    { sees with
      types := fun other => by
        rw [ScopeStack.lookup_pushFrame, sees.types]
        rfl
      enclosing := congrArg (· ++ [name]) sees.enclosing }
  obtain ⟨touring, toured, first⟩ := siblings_find below opened outside
  have types := congrArg ScopeStack.frames first.types
  have values : touring.scope.values = before.scope.values := by
    rw [first.values, made, ScopeStack.bindAll_nil]
  refine ⟨_, tour_descend (enter_enumeration names) toured (leave_enumeration types), ?_⟩
  have made : (Node.mk id (.enumerationDecl name generics cases)).bindings = [] :=
    (Node.bindings_eq _).trans made
  rw [findings_eq, made]
  exact { first with
    scope := by
      dsimp only
      rw [ScopeStack.bindAll_nil, values]
      exact first.scope_of_opened rfl _
    enclosing := by
      dsimp only
      rw [first.enclosing, List.dropLast_concat] }

end Kinds

/-- The tour of a tree in which nothing is declared. -/
theorem operand_finds (operand : node.IsOperand) : TourFinds names inRecord node := by
  induction node using Node.children_induction with
  | step node ih =>
    have below (child : Node) (mem : child ∈ node.children) := ih child mem (operand.child mem)
    have plain := @plain_finds names inRecord node
    have made := node.bindings_eq
    obtain ⟨quiet, -⟩ := operand node node.self_mem_preorder
    obtain ⟨id, kind⟩ := node
    cases kind with
    | functionDecl | namespaceDecl | recordDecl | enumerationDecl | enumerationCase | parameter
    | variableDecl => cases quiet
    | branch condition block => exact block_finds (.inl rfl) below
    | loop condition block => exact block_finds (.inr rfl) below
    | member object name => exact member_finds
    | identifier name =>
      refine plain (fun before outlook sees => ?_) (fun _ => rfl) rfl (fun _ => rfl) made below
      obtain ⟨entered, enters, first⟩ := @resolveIdentifier_finds before outlook id sees name
      exact ⟨entered, (Step.bind_ok enters).trans rfl, first⟩
    | typeName name arguments =>
      refine plain (fun before outlook sees => ?_) (fun _ => rfl) rfl (fun _ => rfl) made below
      obtain ⟨entered, enters, first⟩ := @resolveTypeName_finds before outlook id names sees name
      exact ⟨entered, (Step.bind_ok enters).trans rfl, first⟩
    | _ =>
      exact plain (fun before _ _ => ⟨before, rfl, .refl _⟩) (fun _ => rfl) rfl (fun _ => rfl) made
        below

/-- The tour of a node that opens and binds nothing itself and is no reference. -/
theorem quiet_finds (enters : ∀ before, enter names node before = (.ok .descend, before))
    (leaves : ∀ touring, leave node touring = (.ok (), touring))
    (own : ∀ outlook, ownFindings names.lookup outlook node = [])
    (other : node.isMember = false)
    (inside : ∀ outlook : Outlook, outlook.inside names.lookup node = outlook)
    (made : node.bindings = node.children.flatMap Node.bindings)
    (below : ∀ child ∈ node.children, TourFinds names inRecord child) :
    TourFinds names inRecord node :=
  plain_finds (fun before outlook _ => ⟨before, enters before, own outlook ▸ .refl _⟩) leaves other
    inside made below

/-- The tour of an orderly tree comes to its end, and finds out what there is to find out. -/
theorem tour_finds {place : Surroundings} {left right : Node}
    (h : Rearranged place left right) : TourFinds names place.inRecord left := by
  induction h with
  | operand silent => exact operand_finds silent
  | program setting parts order ih =>
    exact quiet_finds (fun _ => rfl) (fun _ => rfl) (fun _ => rfl) rfl (fun _ => rfl)
      (Node.bindings_eq _) (List.forall_mem_map.2 ih)
  | namespaceDecl named parts order ih => exact namespace_finds (List.forall_mem_map.2 ih)
  | @functionDecl place id name generics parameters returnType pairs setting operands receives parts
      ih =>
    refine function_finds fun child mem => ?_
    rcases List.mem_append.1 mem with mem | mem
    · rcases List.mem_append.1 mem with mem | mem
      · exact operand_finds (operands child (List.mem_cons_of_mem _ mem))
      · rcases receives child mem with silent | ⟨⟨own, type, default?, kind⟩, silent⟩
        · exact operand_finds silent
        · obtain ⟨id, _⟩ := child
          cases kind
          exact bound_finds (fun _ => rfl) (fun _ _ => rfl) (fun _ => rfl) rfl (fun _ => rfl)
            (Node.bindings_eq _) fun operand mem => operand_finds (silent operand mem)
    · rcases List.mem_cons.1 mem with rfl | mem
      · exact operand_finds (operands _ List.mem_cons_self)
      · obtain ⟨pair, among, rfl⟩ := List.mem_map.1 mem
        exact ih pair among
  | @recordDecl place id name generics pairs operands parts ih =>
    have below : ∀ child ∈ generics ++ pairs.map Prod.fst, TourFinds names true child := by
      intro child mem
      rcases List.mem_append.1 mem with mem | mem
      · exact operand_finds (operands child mem)
      · obtain ⟨pair, among, rfl⟩ := List.mem_map.1 mem
        exact ih pair among
    refine record_finds below ?_
    have none := (@Rearranged.recordDecl place.inRecordDecl id name generics pairs operands
      parts).bindings_eq_nil rfl rfl
    rwa [Node.bindings_eq] at none
  | @enumerationDecl place id name generics cases operands members =>
    have below : ∀ child ∈ generics ++ cases, TourFinds names place.inRecord child := by
      intro child mem
      rcases List.mem_append.1 mem with mem | mem
      · exact operand_finds (operands child mem)
      · rcases members child mem with silent | ⟨⟨own, values, kind⟩, silent⟩
        · exact operand_finds silent
        · obtain ⟨id, _⟩ := child
          cases kind
          exact quiet_finds (fun _ => rfl) (fun _ => rfl) (fun _ => rfl) rfl (fun _ => rfl)
            (Node.bindings_eq _) fun operand mem => operand_finds (silent operand mem)
    refine enumeration_finds below ?_
    have none := (@Rearranged.enumerationDecl place.inRecordDecl id name generics cases operands
      members).bindings_eq_nil rfl rfl
    rwa [Node.bindings_eq] at none
  | variableDecl outside operands =>
    have current (touring : Progress) :
        (get : Resolving Progress) touring = (.ok touring, touring) := rfl
    refine bound_finds (fun _ => rfl) (fun touring free => ?_) (fun _ => rfl) rfl (fun _ => rfl)
      (Node.bindings_eq _) fun operand mem => operand_finds (operands operand mem)
    unfold leave
    dsimp only [Node.kind_mk]
    rw [Step.bind_ok (current touring), free outside]
    rfl
  | branch operand parts ih =>
    refine block_finds (.inl rfl) fun child mem => ?_
    rcases List.mem_cons.1 mem with rfl | mem
    · exact operand_finds operand
    · obtain ⟨pair, among, rfl⟩ := List.mem_map.1 mem
      exact ih pair among
  | loop operand parts ih =>
    refine block_finds (.inr rfl) fun child mem => ?_
    rcases List.mem_cons.1 mem with rfl | mem
    · exact operand_finds operand
    · obtain ⟨pair, among, rfl⟩ := List.mem_map.1 mem
      exact ih pair among

end Tours

section Built

variable (tables : NameKind → String → Option NodeId)

/-- Every reference in the tree is found out about once at most, in the order of the tree. -/
theorem findings_sublist (outlook : Outlook) (node : Node) :
    ((findings tables outlook node).map Finding.id).Sublist node.identities := by
  induction node using Node.children_induction generalizing outlook with
  | step node ih =>
    have siblings (siblings : List Node) (sub : siblings ⊆ node.children) (outlook : Outlook) :
        ((along Node.bindings (findings tables) outlook siblings).map Finding.id).Sublist
          (siblings.flatMap Node.identities) := by
      induction siblings generalizing outlook with
      | nil => exact .slnil
      | cons sibling siblings tail =>
        rw [along, List.map_append, List.flatMap_cons]
        exact (ih sibling (sub List.mem_cons_self) outlook).append
          (tail (fun other mem => sub (List.mem_cons_of_mem _ mem)) _)
    have own : ((ownFindings tables outlook node).map Finding.id).Sublist [node.id] := by
      unfold ownFindings
      split <;> simp
    rw [findings_eq, List.map_append, Node.identities_eq]
    refine own.append ?_
    split
    · exact List.nil_sublist _
    · exact siblings node.children (fun _ mem => mem) _

/-- What can be looked up around a whole tree. -/
def Outlook.outermost : Outlook where
  values := tables .value
  types := tables .type
  enclosing := []

theorem sees_outermost (names : Namespace) :
    Sees { scope := outermost names } (.outermost names.lookup) where
  opened := List.cons_ne_nil _ _
  values name := by
    refine (ScopeStack.lookup_pushFrame _ name _).trans ?_
    rw [lookup_eq_of_mem_iff fun id => List.mem_reverse.trans
      Std.TreeMap.mem_toList_iff_getElem?_eq_some]
    exact Option.or_none
  types name := by
    refine (ScopeStack.lookup_pushFrame _ name _).trans ?_
    rw [lookup_eq_of_mem_iff fun id => List.mem_reverse.trans
      Std.TreeMap.mem_toList_iff_getElem?_eq_some]
    exact Option.or_none
  enclosing := rfl
  fields := rfl

/-- The references of an orderly tree are resolved, and what is known about them is what there is
to find out. -/
theorem build_finds {left right : Node} (h : Rearranged .outermost left right)
    (distinct : left.Distinct) (names : Namespace) :
    ∃ scope, (build left names none).1 = .ok scope ∧
      (∀ kind id declaration, (scope.known kind)[id]? = some declaration ↔
        ⟨kind, id, some declaration⟩ ∈ findings names.lookup (.outermost names.lookup) left) ∧
      ∀ kind id, id ∈ scope.undefined kind ↔
        ⟨kind, id, none⟩ ∈ findings names.lookup (.outermost names.lookup) left := by
  have tours : TourFinds names false left := tour_finds h
  obtain ⟨after, toured, found⟩ := tours _ _ (sees_outermost names) fun _ => rfl
  have once := distinct.sublist (findings_sublist names.lookup (.outermost names.lookup) left)
  refine ⟨after.scope, ?_, fun kind id declaration => ?_, fun kind id => ?_⟩
  · unfold build
    rw [toured]
  · rw [found.scope]
    have none (kind : ReferenceKind) (id : NodeId) :
        ((outermost names).known kind)[id]? = none := by cases kind <;> rfl
    have noted := known_foldl_note once (fun finding _ => none kind finding.id) id declaration
    rw [none, or_iff_left nofun] at noted
    cases kind <;> exact noted
  · rw [found.scope]
    have noted := undefined_foldl_note (findings names.lookup (.outermost names.lookup) left)
      (outermost names) kind id
    have none : id ∉ (outermost names).undefined kind := by
      cases kind <;> simp [outermost, undefined]
    rw [or_iff_left none] at noted
    cases kind <;> exact noted

end Built

end Scope

end DeclLang
