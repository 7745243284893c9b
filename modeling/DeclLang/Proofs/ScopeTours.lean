import DeclLang.Names.Scope
import DeclLang.Proofs.LexicalRule
import DeclLang.Proofs.StepInvariants
import DeclLang.Proofs.WrittenIdentities

/-!
# What the tour of a subtree does to the scopes

**Input.**  A tree whose records contain nothing but variables, and a moment of the tour at which it
is about to be entered: inside of a record or not.

**Invariant.**  `Scope.Completes`: outside of records the tour binds `Node.bindings` in the
innermost scope, inside of a record it adds them to the waiting fields; the scopes further out, the
type scopes and the enclosing declarations are as before; and whatever is known about references
elsewhere stays.

**Results.**  `Scope.tour_completes`: every such tour comes to its end, and that is what it does.
-/

namespace DeclLang

namespace ScopeStack

variable {α : Type}

/-- Binds several names in the innermost frame, one after the other. -/
def bindAll (stack : ScopeStack α) (bindings : List (String × α)) : ScopeStack α :=
  match stack.frames with
  | [] => stack
  | frame :: outer =>
    ⟨bindings.foldl (fun frame binding => frame.insert binding.1 binding.2) frame :: outer⟩

@[simp] theorem bindAll_nil (stack : ScopeStack α) : stack.bindAll [] = stack := by
  obtain ⟨frames⟩ := stack
  cases frames <;> rfl

theorem bindAll_append (stack : ScopeStack α) (first second : List (String × α)) :
    stack.bindAll (first ++ second) = (stack.bindAll first).bindAll second := by
  obtain ⟨frames⟩ := stack
  cases frames with
  | nil => rfl
  | cons frame outer => simp [bindAll]

theorem frames_bindAll_ne_nil {stack : ScopeStack α} (h : stack.frames ≠ [])
    (bindings : List (String × α)) : (stack.bindAll bindings).frames ≠ [] := by
  obtain ⟨frames⟩ := stack
  cases frames with
  | nil => exact absurd rfl h
  | cons frame outer => exact List.cons_ne_nil _ _

end ScopeStack

namespace Scope

/-- The same is known about a reference at two moments of the tour. -/
structure AgreesAt (id : NodeId) (before after : Progress) : Prop where
  identifiers : after.scope.identifiers[id]? = before.scope.identifiers[id]?
  members : after.scope.members[id]? = before.scope.members[id]?
  undefined : id ∈ after.scope.undefinedIdentifiers ↔ id ∈ before.scope.undefinedIdentifiers
  warnings : after.diagnostics.warningsAbout id = before.diagnostics.warningsAbout id

namespace AgreesAt

variable {id : NodeId} {before middle after : Progress}

theorem refl (progress : Progress) : AgreesAt id progress progress :=
  ⟨rfl, rfl, Iff.rfl, rfl⟩

theorem trans (first : AgreesAt id before middle) (second : AgreesAt id middle after) :
    AgreesAt id before after :=
  ⟨second.identifiers.trans first.identifiers, second.members.trans first.members,
    second.undefined.trans first.undefined, second.warnings.trans first.warnings⟩

/-- Only references and reports matter. -/
theorem of_eq (identifiers : after.scope.identifiers = before.scope.identifiers)
    (members : after.scope.members = before.scope.members)
    (undefined : after.scope.undefinedIdentifiers = before.scope.undefinedIdentifiers)
    (reports : after.diagnostics = before.diagnostics) : AgreesAt id before after :=
  ⟨by rw [identifiers], by rw [members], by rw [undefined], by rw [reports]⟩

end AgreesAt

/-- The tour of the nodes with these identities has bound some names in the innermost scope, has
added some to the waiting fields, and has only found out something about these nodes. -/
structure Completes (ids : List NodeId) (made queued : List (String × NodeId))
    (before after : Progress) : Prop where
  values : after.scope.values = before.scope.values.bindAll made
  types : after.scope.types = before.scope.types
  enclosing : after.enclosing = before.enclosing
  openRecords : after.openRecords = before.openRecords
  fields : after.fields = before.fields ++ queued
  elsewhere : ∀ id, NodeId.text id ∉ ids.map NodeId.text → AgreesAt id before after

/-- A scope is open, and fields only wait inside of a record. -/
structure Ready (inside : Bool) (progress : Progress) : Prop where
  frames : progress.scope.values.frames ≠ []
  records : inside = decide (0 < progress.openRecords)
  fields : inside = false → progress.fields = []

namespace Completes

variable {ids more : List NodeId} {made queued madeLater queuedLater : List (String × NodeId)}
  {before middle after : Progress}

theorem refl (ids : List NodeId) (progress : Progress) : Completes ids [] [] progress progress where
  values := (ScopeStack.bindAll_nil _).symm
  types := rfl
  enclosing := rfl
  openRecords := rfl
  fields := (List.append_nil _).symm
  elsewhere _ _ := .refl _

theorem trans (first : Completes ids made queued before middle)
    (second : Completes more madeLater queuedLater middle after) :
    Completes (ids ++ more) (made ++ madeLater) (queued ++ queuedLater) before after where
  values := by rw [second.values, first.values, ScopeStack.bindAll_append]
  types := second.types.trans first.types
  enclosing := second.enclosing.trans first.enclosing
  openRecords := second.openRecords.trans first.openRecords
  fields := by rw [second.fields, first.fields, List.append_assoc]
  elsewhere id apart := by
    rw [List.map_append, List.mem_append, not_or] at apart
    exact (first.elsewhere id apart.1).trans (second.elsewhere id apart.2)

theorem ready {inside : Bool} (h : Completes ids made queued before after)
    (start : Ready inside before) (none : inside = false → queued = []) : Ready inside after where
  frames := by
    rw [h.values]
    exact ScopeStack.frames_bindAll_ne_nil start.frames made
  records := by rw [h.openRecords, start.records]
  fields outside := by rw [h.fields, start.fields outside, none outside, List.nil_append]

end Completes

section Steps

variable {progress : Progress}

theorem bindValue_ok (ready : progress.scope.values.frames ≠ []) (name : String) (id : NodeId) :
    bindValue name id progress =
      (.ok (), { progress with scope := { progress.scope with
        values := progress.scope.values.bindAll [(name, id)] } }) := by
  obtain ⟨⟨_, _, _, _, _, _, ⟨frames⟩, _⟩, _, _, _, _⟩ := progress
  cases frames with
  | nil => exact absurd rfl ready
  | cons frame outer => rfl

theorem closeValues_ok {frame : Frame NodeId} {outer : List (Frame NodeId)}
    (frames : progress.scope.values.frames = frame :: outer) :
    closeValues progress =
      (.ok (), { progress with scope := { progress.scope with values := ⟨outer⟩ } }) := by
  obtain ⟨⟨_, _, _, _, _, _, ⟨_⟩, _⟩, _, _, _, _⟩ := progress
  cases frames
  rfl

theorem closeTypes_ok {frame : Frame NodeId} {outer : List (Frame NodeId)}
    (frames : progress.scope.types.frames = frame :: outer) :
    closeTypes progress =
      (.ok (), { progress with scope := { progress.scope with types := ⟨outer⟩ } }) := by
  obtain ⟨⟨_, _, _, _, _, _, _, ⟨_⟩⟩, _, _, _, _⟩ := progress
  cases frames
  rfl

/-- The waiting fields are bound one after the other. -/
theorem bindFields_ok (ready : progress.scope.values.frames ≠ [])
    (fields : List (String × NodeId)) :
    (forIn fields PUnit.unit fun field _ => do
        bindValue field.1 field.2
        pure (ForInStep.yield PUnit.unit) : Resolving PUnit) progress =
      (.ok PUnit.unit, { progress with scope := { progress.scope with
        values := progress.scope.values.bindAll fields } }) := by
  induction fields generalizing progress with
  | nil =>
    rw [ScopeStack.bindAll_nil]
    rfl
  | cons field fields ih =>
    rw [List.forIn_cons, bind_assoc, Step.bind_ok (bindValue_ok ready _ _), pure_bind]
    dsimp only
    rw [ih (ScopeStack.frames_bindAll_ne_nil ready _)]
    dsimp only
    rw [← ScopeStack.bindAll_append]
    rfl

end Steps

section References

variable {id : NodeId} {progress : Progress}

theorem resolveIdentifier_some {name : String} {declaration : NodeId}
    (found : progress.scope.values.lookup name = some declaration) :
    resolveIdentifier id name progress =
      (.ok (), { progress with scope := { progress.scope with
        identifiers := progress.scope.identifiers.insert id declaration } }) := by
  have current : (get : Resolving Progress) progress = (.ok progress, progress) := rfl
  unfold resolveIdentifier
  rw [Step.bind_ok current, found]
  rfl

theorem resolveIdentifier_none {name : String}
    (missing : progress.scope.values.lookup name = none) :
    resolveIdentifier id name progress =
      (.ok (), { progress with
        scope := { progress.scope with
          undefinedIdentifiers := progress.scope.undefinedIdentifiers.insert id }
        diagnostics := progress.diagnostics.warn
          (NodeId.text id ++ ": undefined " ++ "identifier" ++ " `" ++ name ++ "`") }) := by
  have current : (get : Resolving Progress) progress = (.ok progress, progress) := rfl
  unfold resolveIdentifier
  rw [Step.bind_ok current, missing]
  rfl

theorem ne_of_apart {other : NodeId} (apart : NodeId.text other ∉ [id].map NodeId.text) :
    id ≠ other ∧ NodeId.text id ≠ NodeId.text other := by
  have different : NodeId.text id ≠ NodeId.text other :=
    fun same => apart (List.mem_singleton.2 same.symm)
  exact ⟨fun same => different (same ▸ rfl), different⟩

theorem getElem?_insert_of_ne {table : Std.TreeMap NodeId NodeId} {other declaration : NodeId}
    (different : id ≠ other) : (table.insert id declaration)[other]? = table[other]? := by
  rw [Std.TreeMap.getElem?_insert, if_neg]
  simpa using different

theorem mem_insert_of_ne {ids : Std.TreeSet NodeId} {other : NodeId} (different : id ≠ other) :
    other ∈ ids.insert id ↔ other ∈ ids := by
  simp [Std.TreeSet.mem_insert, different]

/-- A warning about one node is not about others. -/
theorem warningsAbout_warn_of_ne {other : NodeId} {diagnostics : Diagnostics}
    (different : NodeId.text id ≠ NodeId.text other) (what name : String) :
    (diagnostics.warn
      (NodeId.text id ++ ": undefined " ++ what ++ " `" ++ name ++ "`")).warningsAbout other =
        diagnostics.warningsAbout other := by
  have written : NodeId.text id ++ ": undefined " ++ what ++ " `" ++ name ++ "`" =
      NodeId.text id ++ (": undefined " ++ what ++ " `" ++ name ++ "`") := by
    simp only [String.append_assoc]
  rw [written, Diagnostics.warningsAbout_warn, if_neg different, List.append_nil]

/-- Looking a reference up only finds out something about it. -/
theorem resolveIdentifier_completes (id : NodeId) (name : String) (progress : Progress) :
    ∃ after, resolveIdentifier id name progress = (.ok (), after) ∧
      Completes [id] [] [] progress after := by
  cases found : progress.scope.values.lookup name with
  | some declaration =>
    refine ⟨_, resolveIdentifier_some found, { Completes.refl [id] progress with
      elsewhere := fun other apart => ?_ }⟩
    obtain ⟨different, -⟩ := ne_of_apart apart
    exact { AgreesAt.refl progress with identifiers := getElem?_insert_of_ne different }
  | none =>
    refine ⟨_, resolveIdentifier_none found, { Completes.refl [id] progress with
      elsewhere := fun other apart => ?_ }⟩
    obtain ⟨different, unlike⟩ := ne_of_apart apart
    exact { AgreesAt.refl progress with
      undefined := mem_insert_of_ne different
      warnings := warningsAbout_warn_of_ne unlike _ _ }

theorem resolveMember_completes (names : Namespace) (node : Node) (member : String)
    (progress : Progress) :
    ∃ after, resolveMember names node member progress = (.ok (), after) ∧
      Completes [node.id] [] [] progress after := by
  have current : (get : Resolving Progress) progress = (.ok progress, progress) := rfl
  unfold resolveMember
  rw [Step.bind_ok current]
  cases node.dottedPath?.bind (lookupQualified names.values progress.enclosing) with
  | some declaration =>
    refine ⟨_, rfl, { Completes.refl [node.id] progress with
      elsewhere := fun other apart => ?_ }⟩
    obtain ⟨different, -⟩ := ne_of_apart apart
    exact { AgreesAt.refl progress with members := getElem?_insert_of_ne different }
  | none =>
    refine ⟨_, rfl, { Completes.refl [node.id] progress with
      elsewhere := fun other apart => ?_ }⟩
    obtain ⟨different, unlike⟩ := ne_of_apart apart
    exact { AgreesAt.refl progress with warnings := warningsAbout_warn_of_ne unlike _ _ }

theorem resolveTypeName_completes (names : Namespace) (id : NodeId) (name : String)
    (progress : Progress) :
    ∃ after, resolveTypeName names id name progress = (.ok (), after) ∧
      Completes [id] [] [] progress after := by
  have current : (get : Resolving Progress) progress = (.ok progress, progress) := rfl
  unfold resolveTypeName
  rw [Step.bind_ok current]
  cases (progress.scope.types.lookup name).or
      (lookupQualified names.types progress.enclosing name) with
  | some declaration =>
    exact ⟨_, rfl, { Completes.refl [id] progress with
      elsewhere := fun _ _ => .of_eq rfl rfl rfl rfl }⟩
  | none =>
    refine ⟨_, rfl, { Completes.refl [id] progress with
      elsewhere := fun other apart => ?_ }⟩
    obtain ⟨-, unlike⟩ := ne_of_apart apart
    exact { AgreesAt.refl progress with warnings := warningsAbout_warn_of_ne unlike _ _ }

end References

section Tours

variable {names : Namespace} {node : Node} {inside : Bool} {before entered touring after : Progress}

theorem tour_descend (enters : enter names node before = (.ok .descend, entered))
    (children : node.children.allM (Node.tour (visitor names none)) entered = (.ok true, touring))
    (leaves : leave node touring = (.ok (), after)) :
    node.tour (visitor names none) before = (.ok true, after) := by
  have enters : (visitor names none).enter node before = (.ok .descend, entered) := enters
  have leaves : (visitor names none).leave node touring = (.ok (), after) := leaves
  rw [Node.tour_eq, Step.bind_ok enters]
  dsimp only
  rw [Step.bind_ok children, if_pos rfl, Step.bind_ok leaves]
  rfl

theorem tour_pass (enters : enter names node before = (.ok .pass, entered))
    (leaves : leave node entered = (.ok (), after)) :
    node.tour (visitor names none) before = (.ok true, after) := by
  have enters : (visitor names none).enter node before = (.ok .pass, entered) := enters
  have leaves : (visitor names none).leave node entered = (.ok (), after) := leaves
  rw [Node.tour_eq, Step.bind_ok enters]
  dsimp only
  rw [Step.bind_ok leaves]
  rfl

variable (names) in
/-- The tour of the node comes to its end; it binds what the node has bound, or lets it wait. -/
def Tours (inside : Bool) (node : Node) : Prop :=
  ∀ before, Ready inside before → ∃ after,
    node.tour (visitor names none) before = (.ok true, after) ∧
      Completes node.identities (cond inside [] node.bindings) (cond inside node.bindings [])
        before after

/-- Siblings are toured one after the other. -/
theorem tour_siblings {siblings : List Node}
    (each : ∀ sibling ∈ siblings, Tours names inside sibling) (ready : Ready inside before) :
    ∃ after, siblings.allM (Node.tour (visitor names none)) before = (.ok true, after) ∧
      Completes (siblings.flatMap Node.identities)
        (cond inside [] (siblings.flatMap Node.bindings))
        (cond inside (siblings.flatMap Node.bindings) []) before after := by
  induction siblings generalizing before with
  | nil => exact ⟨before, rfl, by cases inside <;> exact Completes.refl [] before⟩
  | cons sibling siblings ih =>
    obtain ⟨middle, toured, first⟩ := each sibling List.mem_cons_self before ready
    have goesOn : Ready inside middle := first.ready ready fun outside => by rw [outside]; rfl
    obtain ⟨after, rest, second⟩ :=
      ih (fun other mem => each other (List.mem_cons_of_mem _ mem)) goesOn
    refine ⟨after, ?_, ?_⟩
    · rw [List.allM, Step.bind_ok toured]
      exact rest
    · cases inside <;> simpa using first.trans second

end Tours

end Scope

namespace Node

variable {node : Node}

theorem Silent.child {child : Node} (silent : node.Silent) (mem : child ∈ node.children) :
    child.Silent :=
  fun inner inside => silent inner (mem_preorder_of_mem_children mem inside)

theorem Silent.here (silent : node.Silent) : node.declares = false :=
  silent node node.self_mem_preorder

/-- Where nothing is declared, nothing is bound. -/
theorem Silent.bindings_eq (silent : node.Silent) : node.bindings = [] := by
  induction node using children_induction with
  | step node ih =>
    have below : node.children.flatMap bindings = [] :=
      List.flatMap_eq_nil_iff.2 fun child mem => ih child mem (silent.child mem)
    have here := silent.here
    rw [Node.bindings_eq]
    obtain ⟨id, kind⟩ := node
    cases kind <;> first | exact below | rfl | cases here

/-- What a subtree may contain: inside of a record only a field or no declaration at all, outside of
records only records that contain nothing but variables. -/
def Fits : Bool → Node → Prop
  | true, node => node.IsField ∨ node.Silent
  | false, node => ∀ inner ∈ node.preorder, inner.HoldsFields

/-- Whether what is below the node is inside of a record. -/
def within (inside : Bool) (node : Node) : Bool :=
  inside || node.kind matches .recordDecl ..

theorem Fits.child {inside : Bool} (fits : node.Fits inside) {child : Node}
    (mem : child ∈ node.children) : child.Fits (node.within inside) := by
  cases inside with
  | true =>
    rcases fits with field | silent
    · exact .inr (field.2 child mem)
    · exact .inr (silent.child mem)
  | false =>
    have below : child.Fits false := fun inner deeper =>
      fits inner (mem_preorder_of_mem_children mem deeper)
    have here := fits node node.self_mem_preorder
    obtain ⟨id, kind⟩ := node
    cases kind with
    | recordDecl name generics declarations =>
      rcases List.mem_append.1 mem with generic | declaration
      · exact .inr (here.1 child generic)
      · exact .inl (here.2 child declaration)
    | _ => exact below

/-- Inside of a record there are fields, and nodes that declare nothing. -/
theorem Fits.silent {inside : Bool} (fits : node.Fits inside) (other : node.isVariable = false)
    (same : inside = true) : node.Silent := by
  subst same
  rcases fits with field | silent
  · exact absurd field.1 (by rw [other]; decide)
  · exact silent

/-- Declarations other than variables are outside of records. -/
theorem Fits.outside {inside : Bool} (fits : node.Fits inside) (declares : node.declares = true)
    (other : node.isVariable = false) : inside = false :=
  Bool.eq_false_iff.2 fun same => by
    rw [(fits.silent other same).here] at declares
    cases declares

end Node

namespace Scope

section Enter

variable (names : Namespace) {progress : Progress} {id : NodeId} {name : String}
  {generics parameters body block declarations cases : List Node} {returnType condition : Node}

theorem enter_function (ready : progress.scope.values.frames ≠ []) :
    enter names (.mk id (.functionDecl name generics parameters returnType body)) progress =
      (.ok .descend, { progress with
        scope := { progress.scope with
          values := (progress.scope.values.bindAll [(name, id)]).push
          types := progress.scope.types.pushFrame (genericBindings generics) }
        enclosing := progress.enclosing ++ [name] }) := by
  unfold enter
  dsimp only [Node.kind_mk, Node.id_mk]
  rw [Step.bind_ok (bindValue_ok ready name id)]
  rfl

theorem enter_namespace :
    enter names (.mk id (.namespaceDecl name declarations)) progress =
      (.ok .descend, { progress with
        scope := { progress.scope with
          values := progress.scope.values.pushFrame
            (membersOf names.values (Path.join (progress.enclosing ++ [name])))
          types := progress.scope.types.pushFrame
            (membersOf names.types (Path.join (progress.enclosing ++ [name]))) }
        enclosing := progress.enclosing ++ [name] }) :=
  rfl

theorem enter_record :
    enter names (.mk id (.recordDecl name generics declarations)) progress =
      (.ok .descend, { progress with
        scope := { progress.scope with
          types := progress.scope.types.pushFrame (genericBindings generics) }
        enclosing := progress.enclosing ++ [name]
        openRecords := progress.openRecords + 1 }) :=
  rfl

theorem enter_enumeration :
    enter names (.mk id (.enumerationDecl name generics cases)) progress =
      (.ok .descend, { progress with
        scope := { progress.scope with
          types := progress.scope.types.pushFrame (genericBindings generics) }
        enclosing := progress.enclosing ++ [name] }) :=
  rfl

theorem enter_block {node : Node}
    (isBlock : node.kind = .branch condition block ∨ node.kind = .loop condition block) :
    enter names node progress =
      (.ok .descend, { progress with scope := { progress.scope with
        values := progress.scope.values.push } }) := by
  unfold enter
  rcases isBlock with same | same <;> rw [same] <;> rfl

end Enter

section Leave

variable {progress : Progress} {id : NodeId} {name : String}
  {generics parameters body block declarations cases : List Node} {returnType condition : Node}
  {frame typeFrame : Frame NodeId} {outer typeOuter : List (Frame NodeId)}

theorem leave_function (values : progress.scope.values.frames = frame :: outer)
    (types : progress.scope.types.frames = typeFrame :: typeOuter) :
    leave (.mk id (.functionDecl name generics parameters returnType body)) progress =
      (.ok (), { progress with
        scope := { progress.scope with values := ⟨outer⟩, types := ⟨typeOuter⟩ }
        enclosing := progress.enclosing.dropLast }) := by
  obtain ⟨⟨_, _, _, _, _, _, ⟨_⟩, ⟨_⟩⟩, _, _, _, _⟩ := progress
  cases values
  cases types
  rfl

theorem leave_namespace (values : progress.scope.values.frames = frame :: outer)
    (types : progress.scope.types.frames = typeFrame :: typeOuter) :
    leave (.mk id (.namespaceDecl name declarations)) progress =
      (.ok (), { progress with
        scope := { progress.scope with values := ⟨outer⟩, types := ⟨typeOuter⟩ }
        enclosing := progress.enclosing.dropLast }) := by
  obtain ⟨⟨_, _, _, _, _, _, ⟨_⟩, ⟨_⟩⟩, _, _, _, _⟩ := progress
  cases values
  cases types
  rfl

theorem leave_record (ready : progress.scope.values.frames ≠ [])
    (types : progress.scope.types.frames = typeFrame :: typeOuter) :
    leave (.mk id (.recordDecl name generics declarations)) progress =
      (.ok (), { progress with
        scope := { progress.scope with
          values := progress.scope.values.bindAll progress.fields, types := ⟨typeOuter⟩ }
        enclosing := progress.enclosing.dropLast
        openRecords := progress.openRecords - 1
        fields := [] }) := by
  obtain ⟨⟨_, _, _, _, _, _, _, ⟨_⟩⟩, _, _, fields, _⟩ := progress
  cases types
  refine (Step.bind_ok (bindFields_ok ?_ fields)).trans ?_
  · exact ready
  · rfl

theorem leave_enumeration (types : progress.scope.types.frames = typeFrame :: typeOuter) :
    leave (.mk id (.enumerationDecl name generics cases)) progress =
      (.ok (), { progress with
        scope := { progress.scope with types := ⟨typeOuter⟩ }
        enclosing := progress.enclosing.dropLast }) := by
  unfold leave
  dsimp only [Node.kind_mk]
  exact Step.bind_ok (closeTypes_ok types)

theorem leave_block {node : Node}
    (isBlock : node.kind = .branch condition block ∨ node.kind = .loop condition block)
    (values : progress.scope.values.frames = frame :: outer) :
    leave node progress =
      (.ok (), { progress with scope := { progress.scope with values := ⟨outer⟩ } }) := by
  unfold leave
  rcases isBlock with same | same <;> rw [same] <;> exact closeValues_ok values

end Leave

section Kinds

variable {names : Namespace} {inside : Bool} {id : NodeId} {name : String}
  {generics parameters body block declarations cases : List Node} {returnType condition : Node}

/-- A node that opens and binds nothing itself. -/
theorem tours_plain {node : Node}
    (enters : ∀ before, ∃ entered, enter names node before = (.ok .descend, entered) ∧
      Completes [node.id] [] [] before entered)
    (leaves : ∀ touring, leave node touring = (.ok (), touring))
    (same : node.bindings = node.children.flatMap Node.bindings)
    (below : ∀ child ∈ node.children, Tours names inside child) : Tours names inside node := by
  intro before ready
  obtain ⟨entered, enters, first⟩ := enters before
  obtain ⟨touring, toured, second⟩ := tour_siblings below (first.ready ready fun _ => rfl)
  refine ⟨touring, tour_descend enters toured (leaves touring), ?_⟩
  rw [same, Node.identities_eq]
  simpa using first.trans second

/-- What is known elsewhere stays if opening and closing a node find out nothing. -/
theorem elsewhere_of_children {node : Node} {made queued : List (String × NodeId)}
    {before entered touring after : Progress}
    (toured : Completes (node.children.flatMap Node.identities) made queued entered touring)
    (opens : ∀ other, AgreesAt other before entered)
    (closes : ∀ other, AgreesAt other touring after) (other : NodeId)
    (apart : NodeId.text other ∉ node.identities.map NodeId.text) :
    AgreesAt other before after := by
  rw [Node.identities_eq, List.map_cons, List.mem_cons, not_or] at apart
  exact ((opens other).trans (toured.elsewhere other apart.2)).trans (closes other)

/-- Outside of records, a node that is bound after what is inside of it. -/
theorem tours_bound {node : Node}
    (enters : ∀ before, enter names node before = (.ok .descend, before))
    (leaves : ∀ touring, Ready false touring →
      leave node touring = bindValue name node.id touring)
    (same : node.bindings = node.children.flatMap Node.bindings ++ [(name, node.id)])
    (below : ∀ child ∈ node.children, Tours names false child) : Tours names false node := by
  intro before ready
  obtain ⟨touring, toured, second⟩ := tour_siblings below ready
  have opened : Ready false touring := second.ready ready fun _ => rfl
  refine ⟨_, tour_descend (enters before) toured
    ((leaves touring opened).trans (bindValue_ok opened.frames name node.id)), ?_⟩
  rw [same]
  exact { second with
    values := by
      dsimp only [cond]
      rw [second.values, ScopeStack.bindAll_append]
      rfl
    elsewhere := elsewhere_of_children second (fun _ => .refl _)
      fun _ => .of_eq rfl rfl rfl rfl }

/-- Inside of a record, a node that waits after what is inside of it. -/
theorem tours_waiting {node : Node}
    (enters : ∀ before, enter names node before = (.ok .descend, before))
    (leaves : ∀ touring, Ready true touring → leave node touring =
      (.ok (), { touring with fields := touring.fields ++ [(name, node.id)] }))
    (same : node.bindings = node.children.flatMap Node.bindings ++ [(name, node.id)])
    (below : ∀ child ∈ node.children, Tours names true child) : Tours names true node := by
  intro before ready
  obtain ⟨touring, toured, second⟩ := tour_siblings below ready
  have opened : Ready true touring := second.ready ready nofun
  refine ⟨_, tour_descend (enters before) toured (leaves touring opened), ?_⟩
  rw [same]
  exact { second with
    fields := by
      dsimp only [cond]
      rw [second.fields, List.append_assoc]
      rfl
    elsewhere := elsewhere_of_children second (fun _ => .refl _)
      fun _ => .of_eq rfl rfl rfl rfl }

/-- A variable is bound, or waits inside of a record, after what is inside of it. -/
theorem tours_variable {node : Node}
    (enters : ∀ before, enter names node before = (.ok .descend, before))
    (leaves : leave node = do
      if (← get).openRecords > 0 then
        modify fun progress => { progress with fields := progress.fields ++ [(name, node.id)] }
      else
        bindValue name node.id)
    (same : node.bindings = node.children.flatMap Node.bindings ++ [(name, node.id)])
    (below : ∀ child ∈ node.children, Tours names inside child) : Tours names inside node := by
  have current (touring : Progress) :
      (get : Resolving Progress) touring = (.ok touring, touring) := rfl
  cases inside with
  | true =>
    refine tours_waiting enters (fun touring opened => ?_) same below
    rw [leaves, Step.bind_ok (current touring), if_pos (of_decide_eq_true opened.records.symm)]
    rfl
  | false =>
    refine tours_bound enters (fun touring opened => ?_) same below
    rw [leaves, Step.bind_ok (current touring), if_neg (of_decide_eq_false opened.records.symm)]

/-- A branch or a loop binds only in a scope of its own. -/
theorem tours_block {node : Node}
    (isBlock : node.kind = .branch condition block ∨ node.kind = .loop condition block)
    (quiet : inside = true → node.Silent)
    (below : ∀ child ∈ node.children, Tours names inside child) : Tours names inside node := by
  have none : node.bindings = [] := by
    rw [Node.bindings_eq]
    rcases isBlock with same | same <;> rw [same]
  have queued : cond inside (node.children.flatMap Node.bindings) [] = [] := by
    cases inside with
    | true => exact List.flatMap_eq_nil_iff.2 fun child mem =>
        ((quiet rfl).child mem).bindings_eq
    | false => rfl
  intro before ready
  have opened : Ready inside { before with scope := { before.scope with
      values := before.scope.values.push } } :=
    { ready with frames := List.cons_ne_nil _ _ }
  obtain ⟨touring, toured, second⟩ := tour_siblings below opened
  rw [queued] at second
  have values := congrArg ScopeStack.frames second.values
  refine ⟨_, tour_descend (enter_block names isBlock) toured (leave_block isBlock values), ?_⟩
  rw [none]
  cases inside <;> exact { second with
    values := (ScopeStack.bindAll_nil _).symm
    elsewhere := elsewhere_of_children second (fun _ => .of_eq rfl rfl rfl rfl)
      fun _ => .of_eq rfl rfl rfl rfl }

/-- A function is bound in the scope around it, and binds the rest in a scope of its own. -/
theorem tours_function (below : ∀ child ∈ generics ++ parameters ++ returnType :: body,
      Tours names false child) :
    Tours names false (.mk id (.functionDecl name generics parameters returnType body)) := by
  intro before ready
  have opened : Ready false { before with
      scope := { before.scope with
        values := (before.scope.values.bindAll [(name, id)]).push
        types := before.scope.types.pushFrame (genericBindings generics) }
      enclosing := before.enclosing ++ [name] } :=
    { ready with frames := List.cons_ne_nil _ _ }
  obtain ⟨touring, toured, second⟩ := tour_siblings below opened
  have values := congrArg ScopeStack.frames second.values
  have types := congrArg ScopeStack.frames second.types
  refine ⟨_, tour_descend (enter_function names ready.frames) toured
    (leave_function values types), ?_⟩
  rw [Node.bindings_eq]
  exact { second with
    values := rfl
    types := rfl
    enclosing := by
      dsimp only
      rw [second.enclosing, List.dropLast_concat]
    elsewhere := elsewhere_of_children second (fun _ => .of_eq rfl rfl rfl rfl)
      fun _ => .of_eq rfl rfl rfl rfl }

/-- A namespace binds only in a scope of its own. -/
theorem tours_namespace (below : ∀ child ∈ declarations, Tours names false child) :
    Tours names false (.mk id (.namespaceDecl name declarations)) := by
  intro before ready
  have opened : Ready false { before with
      scope := { before.scope with
        values := before.scope.values.pushFrame
          (membersOf names.values (Path.join (before.enclosing ++ [name])))
        types := before.scope.types.pushFrame
          (membersOf names.types (Path.join (before.enclosing ++ [name]))) }
      enclosing := before.enclosing ++ [name] } :=
    { ready with frames := List.cons_ne_nil _ _ }
  obtain ⟨touring, toured, second⟩ := tour_siblings below opened
  have values := congrArg ScopeStack.frames second.values
  have types := congrArg ScopeStack.frames second.types
  refine ⟨_, tour_descend (enter_namespace names) toured (leave_namespace values types), ?_⟩
  rw [Node.bindings_eq]
  exact { second with
    values := (ScopeStack.bindAll_nil _).symm
    types := rfl
    enclosing := by
      dsimp only
      rw [second.enclosing, List.dropLast_concat]
    elsewhere := elsewhere_of_children second (fun _ => .of_eq rfl rfl rfl rfl)
      fun _ => .of_eq rfl rfl rfl rfl }

/-- The fields of a record wait until it is left. -/
theorem tours_record (below : ∀ child ∈ generics ++ declarations, Tours names true child) :
    Tours names false (.mk id (.recordDecl name generics declarations)) := by
  intro before ready
  have opened : Ready true { before with
      scope := { before.scope with
        types := before.scope.types.pushFrame (genericBindings generics) }
      enclosing := before.enclosing ++ [name]
      openRecords := before.openRecords + 1 } :=
    { ready with records := (decide_eq_true (Nat.succ_pos _)).symm, fields := nofun }
  obtain ⟨touring, toured, second⟩ := tour_siblings below opened
  have types := congrArg ScopeStack.frames second.types
  have values : touring.scope.values = before.scope.values :=
    second.values.trans (ScopeStack.bindAll_nil _)
  have fields : touring.fields = (generics ++ declarations).flatMap Node.bindings := by
    rw [second.fields]
    exact congrArg (· ++ _) (ready.fields rfl)
  have open' : touring.scope.values.frames ≠ [] := values ▸ ready.frames
  refine ⟨_, tour_descend (enter_record names) toured (leave_record open' types), ?_⟩
  rw [Node.bindings_eq]
  exact {
    values := by
      dsimp only [cond]
      rw [values, fields]
      rfl
    types := rfl
    enclosing := by
      dsimp only
      rw [second.enclosing, List.dropLast_concat]
    openRecords := by
      dsimp only
      rw [second.openRecords, Nat.add_sub_cancel]
    fields := (congrArg (· ++ []) (ready.fields rfl)).symm
    elsewhere := elsewhere_of_children second (fun _ => .of_eq rfl rfl rfl rfl)
      fun _ => .of_eq rfl rfl rfl rfl }

/-- An enumeration opens no scope for values. -/
theorem tours_enumeration (below : ∀ child ∈ generics ++ cases, Tours names false child) :
    Tours names false (.mk id (.enumerationDecl name generics cases)) := by
  intro before ready
  have opened : Ready false { before with
      scope := { before.scope with
        types := before.scope.types.pushFrame (genericBindings generics) }
      enclosing := before.enclosing ++ [name] } :=
    { ready with }
  obtain ⟨touring, toured, second⟩ := tour_siblings below opened
  have types := congrArg ScopeStack.frames second.types
  refine ⟨_, tour_descend (enter_enumeration names) toured (leave_enumeration types), ?_⟩
  rw [Node.bindings_eq]
  exact { second with
    types := rfl
    enclosing := by
      dsimp only
      rw [second.enclosing, List.dropLast_concat]
    elsewhere := elsewhere_of_children second (fun _ => .of_eq rfl rfl rfl rfl)
      fun _ => .of_eq rfl rfl rfl rfl }

/-- Nothing is found out about what a member expression is made of. -/
theorem tour_member {object : Node} (before : Progress) :
    ∃ after, (Node.mk id (.member object name)).tour (visitor names none) before =
        (.ok true, after) ∧ Completes [id] [] [] before after := by
  obtain ⟨entered, enters, first⟩ := resolveMember_completes names
    (.mk id (.member object name)) name before
  have enters : enter names (.mk id (.member object name)) before = (.ok .pass, entered) :=
    (Step.bind_ok enters).trans rfl
  exact ⟨entered, tour_pass enters rfl, first⟩

end Kinds

/-- Every tour of a subtree that fits comes to its end. -/
theorem tour_completes (names : Namespace) {inside : Bool} {node : Node} (fits : node.Fits inside) :
    Tours names inside node := by
  induction node using Node.children_induction generalizing inside with
  | step node ih =>
    have below : ∀ child ∈ node.children, Tours names (node.within inside) child :=
      fun child mem => ih child mem (fits.child mem)
    have plain (enters : ∀ before, ∃ entered, enter names node before = (.ok .descend, entered) ∧
          Completes [node.id] [] [] before entered)
        (leaves : ∀ touring, leave node touring = (.ok (), touring))
        (same : node.bindings = node.children.flatMap Node.bindings)
        (stays : node.within inside = inside) : Tours names inside node :=
      tours_plain enters leaves same (stays ▸ below)
    have bound := node.bindings_eq
    obtain ⟨id, kind⟩ := node
    have stays : inside = (inside || false) := (Bool.or_false inside).symm
    cases kind with
    | functionDecl name generics parameters returnType body =>
      obtain rfl := fits.outside rfl rfl
      exact tours_function below
    | namespaceDecl name declarations =>
      obtain rfl := fits.outside rfl rfl
      exact tours_namespace below
    | recordDecl name generics declarations =>
      obtain rfl := fits.outside rfl rfl
      exact tours_record below
    | enumerationDecl name generics cases =>
      obtain rfl := fits.outside rfl rfl
      exact tours_enumeration below
    | branch condition block =>
      exact tours_block (.inl rfl) (fits.silent rfl) (stays ▸ below)
    | loop condition block =>
      exact tours_block (.inr rfl) (fits.silent rfl) (stays ▸ below)
    | parameter name type default? =>
      obtain rfl := fits.outside rfl rfl
      exact tours_bound (fun _ => rfl) (fun _ _ => rfl) bound below
    | variableDecl name type? initializer? =>
      exact tours_variable (fun _ => rfl) rfl bound (stays ▸ below)
    | identifier name =>
      refine plain (fun before => ?_) (fun _ => rfl) bound stays.symm
      obtain ⟨entered, enters, first⟩ :=
        resolveIdentifier_completes id name before
      exact ⟨entered, (Step.bind_ok enters).trans rfl, first⟩
    | member object name =>
      intro before _
      obtain ⟨after, toured, first⟩ := tour_member before
      rw [Node.bindings_eq, Node.identities_eq]
      refine ⟨after, toured, ?_⟩
      cases inside <;> exact { first with
        elsewhere := fun other apart => first.elsewhere other fun mem =>
          apart (List.mem_cons.2 (.inl (List.mem_singleton.1 mem))) }
    | typeName name arguments =>
      refine plain (fun before => ?_) (fun _ => rfl) bound stays.symm
      obtain ⟨entered, enters, first⟩ :=
        resolveTypeName_completes names id name before
      exact ⟨entered, (Step.bind_ok enters).trans rfl, first⟩
    | _ => exact plain (fun before => ⟨before, rfl, .refl _ _⟩) (fun _ => rfl) bound stays.symm

end Scope

end DeclLang
