import DeclLang.Proofs.Findings
import DeclLang.Proofs.ScopeMoments
import DeclLang.Proofs.ScopeStacks

/-!
# What a stretch of the tour sees

**Input.**  Any tree, the tables of a namespace, and a stretch of the moments of the tour.

**Invariant.**  `Scope.Framed`: every binding on the stacks, and every waiting field, has a property
of names and identities that all declarations of the tree have, and all entries of the namespace.

**Results.**
* `Scope.run_sees`: a stretch of the tour notes one sighting for each reference that it enters, in
  the order in which it enters them, and changes nothing else about references.
* `Scope.Notes.known_iff`, `Scope.Notes.undefined_iff`: what is known after a stretch is what the
  stretch has seen.
-/

namespace DeclLang

open Inference (Moment)
open Step (Keeps Ensures)

namespace Node

open Scope (ReferenceKind)

/-- The kind of reference that the node is. -/
def referenceKind? (node : Node) : Option ReferenceKind :=
  match node.kind with
  | .identifier _ => some .identifier
  | .member .. => some .member
  | .typeName .. => some .typeName
  | _ => none

/-- What is looked for, and how a message calls it. -/
def sought (node : Node) : String × String :=
  match node.kind with
  | .identifier name => ("identifier", name)
  | .member _ name => ("member", node.dottedPath?.getD name)
  | .typeName name _ => ("type", name)
  | kind => (kind.description, "")

/-- The warning that nothing was found. -/
def undefinedWarning (node : Node) : Diagnostic :=
  ⟨.warning,
    NodeId.text node.id ++ ": undefined " ++ node.sought.1 ++ " `" ++ node.sought.2 ++ "`"⟩

end Node

namespace Scope

/-- A reference that was entered, and the declaration that was found for it. -/
structure Sighting where
  node : Node
  kind : ReferenceKind
  isReference : node.referenceKind? = some kind
  declaration? : Option NodeId

namespace Sighting

/-- What is noted. -/
def finding (sighting : Sighting) : Finding :=
  ⟨sighting.kind, sighting.node.id, sighting.declaration?⟩

/-- What is reported. -/
def reports (sighting : Sighting) : List Diagnostic :=
  match sighting.declaration? with
  | some _ => []
  | none => [sighting.node.undefinedWarning]

end Sighting

/-- The declaration that a reference stands for, where the tour enters it. -/
def look (names : Namespace) (progress : Progress) (node : Node) : Option NodeId :=
  match node.kind with
  | .identifier name => progress.scope.values.lookup name
  | .member .. => node.dottedPath?.bind (lookupQualified names.values progress.enclosing)
  | .typeName name _ =>
    (progress.scope.types.lookup name).or (lookupQualified names.types progress.enclosing name)
  | _ => none

/-- A reference is noted, and reported if nothing was found. -/
def Progress.see (progress : Progress) (sighting : Sighting) : Progress :=
  { progress with
    scope := progress.scope.note sighting.finding
    diagnostics := match sighting.declaration? with
      | some _ => progress.diagnostics
      | none => progress.diagnostics.report .warning sighting.node.undefinedWarning.message }

/-- What is known about references, without the scopes that are open. -/
def tables (scope : Scope) : Scope :=
  { scope with values := {}, types := {} }

theorem tables_note (scope : Scope) (finding : Finding) :
    (scope.note finding).tables = scope.tables.note finding := by
  obtain ⟨kind, id, declaration?⟩ := finding
  cases kind <;> cases declaration? <;> rfl

theorem known_tables (scope : Scope) (kind : ReferenceKind) :
    scope.tables.known kind = scope.known kind := by
  cases kind <;> rfl

theorem undefined_tables (scope : Scope) (kind : ReferenceKind) :
    scope.tables.undefined kind = scope.undefined kind := by
  cases kind <;> rfl

theorem isUndefined_iff {scope : Scope} {id : NodeId} :
    scope.isUndefined id = true ↔ ∃ kind, id ∈ scope.undefined kind := by
  unfold isUndefined
  simp only [Bool.or_eq_true, Std.TreeSet.contains_iff_mem]
  constructor
  · rintro ((undefined | undefined) | undefined)
    · exact ⟨.identifier, undefined⟩
    · exact ⟨.member, undefined⟩
    · exact ⟨.typeName, undefined⟩
  · rintro ⟨kind, undefined⟩
    cases kind
    · exact .inl (.inl undefined)
    · exact .inl (.inr undefined)
    · exact .inr undefined

/-- To enter a reference is to see it. -/
theorem enter_reference (names : Namespace) {node : Node} {kind : ReferenceKind}
    (isReference : node.referenceKind? = some kind) (progress : Progress) :
    act names (.entering node) progress =
      (.ok (), progress.see ⟨node, kind, isReference, look names progress node⟩) := by
  have current : (get : Resolving Progress) progress = (.ok progress, progress) := rfl
  have enters {resolves : Resolving Unit} {direction : Direction} {after : Progress}
      (resolved : resolves progress = (.ok (), after))
      (same : enter names node = do resolves; return direction) :
      act names (.entering node) progress = (.ok (), after) := by
    rw [act, same]
    exact (Step.bind_ok ((Step.bind_ok resolved).trans rfl)).trans rfl
  obtain ⟨id, own⟩ := node
  cases own with
  | identifier name =>
    cases isReference
    refine @enters (resolveIdentifier id name) .descend _ ?_ rfl
    unfold look
    dsimp only [Node.kind_mk]
    cases found : progress.scope.values.lookup name with
    | some declaration => exact resolveIdentifier_some found
    | none => exact resolveIdentifier_none found
  | member object name =>
    cases isReference
    refine @enters (resolveMember names _ name) .pass _ ?_ rfl
    unfold resolveMember look
    dsimp only [Node.kind_mk]
    rw [Step.bind_ok current]
    cases (Node.mk id (.member object name)).dottedPath?.bind
      (lookupQualified names.values progress.enclosing) <;> rfl
  | typeName name arguments =>
    cases isReference
    refine @enters (resolveTypeName names id name) .descend _ ?_ rfl
    unfold resolveTypeName look
    dsimp only [Node.kind_mk]
    rw [Step.bind_ok current]
    cases (progress.scope.types.lookup name).or
      (lookupQualified names.types progress.enclosing name) <;> rfl
  | _ => cases isReference

/-- Sightings are noted and reported one after the other, and nothing else is found out about
references. -/
structure Notes (seen : List Sighting) (before after : Progress) : Prop where
  tables : after.scope.tables = (seen.map Sighting.finding).foldl note before.scope.tables
  diagnostics : after.diagnostics.toList =
    before.diagnostics.toList ++ seen.flatMap Sighting.reports

section Notes

variable {seen more : List Sighting} {before middle after : Progress}

theorem Notes.trans (first : Notes seen before middle) (second : Notes more middle after) :
    Notes (seen ++ more) before after where
  tables := by rw [second.tables, first.tables, List.map_append, List.foldl_append]
  diagnostics := by
    rw [second.diagnostics, first.diagnostics, List.flatMap_append, List.append_assoc]

theorem notes_see (progress : Progress) (sighting : Sighting) :
    Notes [sighting] progress (progress.see sighting) where
  tables := tables_note progress.scope sighting.finding
  diagnostics := by
    obtain ⟨node, kind, isReference, declaration?⟩ := sighting
    cases declaration? with
    | some declaration => exact (List.append_nil _).symm
    | none => exact Diagnostics.toList_report _ _ _

variable {names : Namespace}

/-- What is known after a stretch is what the stretch has seen. -/
theorem Notes.known_iff (noted : Notes seen (start names) after)
    (distinct : (seen.map fun sighting => sighting.node.id).Nodup) {kind : ReferenceKind}
    {id declaration : NodeId} :
    (after.scope.known kind)[id]? = some declaration ↔
      ∃ sighting ∈ seen, sighting.kind = kind ∧ sighting.node.id = id ∧
        sighting.declaration? = some declaration := by
  have nothing (id : NodeId) : ((start names).scope.tables.known kind)[id]? = none := by
    cases kind <;> rfl
  have distinct : ((seen.map Sighting.finding).map Finding.id).Nodup := by
    rw [List.map_map]
    exact distinct
  rw [← known_tables, noted.tables,
    known_foldl_note distinct fun finding _ => nothing finding.id, nothing]
  simp [Sighting.finding]

/-- What is undefined after a stretch is what the stretch has not found. -/
theorem Notes.undefined_iff (noted : Notes seen (start names) after) {kind : ReferenceKind}
    {id : NodeId} :
    id ∈ after.scope.undefined kind ↔
      ∃ sighting ∈ seen, sighting.kind = kind ∧ sighting.node.id = id ∧
        sighting.declaration? = none := by
  have nothing : id ∉ (start names).scope.tables.undefined kind := by
    cases kind <;> exact Std.TreeSet.not_mem_emptyc
  rw [← undefined_tables, noted.tables, undefined_foldl_note]
  simp [Sighting.finding, nothing]

end Notes

/-- Every binding on the stacks, and every waiting field, has the property. -/
structure Framed (named : String → NodeId → Prop) (progress : Progress) : Prop where
  values : progress.scope.values.Every named
  types : progress.scope.types.Every named
  fields : ∀ field ∈ progress.fields, named field.1 field.2

/-- The declarations of the tree have the property under their names, and the entries of the
namespace have it under their paths and under their names as members. -/
structure Covers (root : Node) (names : Namespace) (named : String → NodeId → Prop) : Prop where
  declared : ∀ node ∈ root.preorder, ∀ name, node.declaredName? = some name → named name node.id
  paths : ∀ (kind : NameKind) (path : String) (id : NodeId),
    (names.table kind)[path]? = some id → named path id
  members : ∀ (kind : NameKind) (owner : String),
    ∀ binding ∈ membersOf (names.table kind) owner, named binding.1 binding.2

/-- Since the tour was here, nothing was found out about references. -/
structure Quiet (named : String → NodeId → Prop) (here progress : Progress) : Prop where
  tables : progress.scope.tables = here.scope.tables
  diagnostics : progress.diagnostics = here.diagnostics
  framed : Framed named progress

section Quiet

variable {root node : Node} {names : Namespace} {named : String → NodeId → Prop}
  {here progress : Progress}

theorem Quiet.refl (framed : Framed named here) : Quiet named here here :=
  ⟨rfl, rfl, framed⟩

theorem Quiet.notes (quiet : Quiet named here progress) : Notes [] here progress where
  tables := quiet.tables
  diagnostics := by rw [quiet.diagnostics]; exact (List.append_nil _).symm

/-- Anything may change but what is known about references and what was reported. -/
theorem Quiet.change (quiet : Quiet named here progress) {values types : ScopeStack NodeId}
    {enclosing : List String} {openRecords : Nat} {fields : List (String × NodeId)}
    (hv : values.Every named) (ht : types.Every named)
    (hf : ∀ field ∈ fields, named field.1 field.2) :
    Quiet named here { progress with
      scope := { progress.scope with values, types }, enclosing, openRecords, fields } :=
  ⟨quiet.tables, quiet.diagnostics, hv, ht, hf⟩

theorem openDeclaration_quiet (name : String) : Keeps (Quiet named here) (openDeclaration name) :=
  Step.ensures_modify fun _ quiet =>
    quiet.change quiet.framed.values quiet.framed.types quiet.framed.fields

theorem closeDeclaration_quiet : Keeps (Quiet named here) closeDeclaration :=
  Step.ensures_modify fun _ quiet =>
    quiet.change quiet.framed.values quiet.framed.types quiet.framed.fields

theorem openValues_quiet : Keeps (Quiet named here) openValues :=
  Step.ensures_modify fun _ quiet =>
    quiet.change quiet.framed.values.push quiet.framed.types quiet.framed.fields

theorem openGenerics_quiet {generics : List Node}
    (new : ∀ binding ∈ genericBindings generics, named binding.1 binding.2) :
    Keeps (Quiet named here) (openGenerics generics) :=
  Step.ensures_modify fun _ quiet =>
    quiet.change quiet.framed.values (quiet.framed.types.pushFrame new) quiet.framed.fields

theorem closeValues_quiet : Keeps (Quiet named here) closeValues := by
  refine Step.ensures_get.bind fun progress quiet => ?_
  split
  · rename_i frame values popped
    exact Step.ensures_modify fun _ later => later.change (quiet.framed.values.pop popped)
      later.framed.types later.framed.fields
  · exact Step.ensures_throw _

theorem closeTypes_quiet : Keeps (Quiet named here) closeTypes := by
  refine Step.ensures_get.bind fun progress quiet => ?_
  split
  · rename_i frame types popped
    exact Step.ensures_modify fun _ later => later.change later.framed.values
      (quiet.framed.types.pop popped) later.framed.fields
  · exact Step.ensures_throw _

theorem bindValue_quiet {name : String} {id : NodeId} (new : named name id) :
    Keeps (Quiet named here) (bindValue name id) := by
  refine Step.ensures_get.bind fun progress quiet => ?_
  split
  · rename_i replaced values bound
    exact Step.ensures_modify fun _ later => later.change (quiet.framed.values.bind new bound)
      later.framed.types later.framed.fields
  · exact Step.ensures_throw _

/-- Generic parameters of a declaration in the tree have the property. -/
theorem Covers.generics (covers : Covers root names named) (mem : node ∈ root.preorder)
    (generics : List Node) (inside : generics ⊆ node.children) :
    ∀ binding ∈ genericBindings generics, named binding.1 binding.2 := by
  intro binding among
  obtain ⟨generic, declared, found⟩ := List.mem_filterMap.1 among
  obtain ⟨name, isName, rfl⟩ := Option.map_eq_some_iff.1 found
  refine covers.declared generic ?_ name isName
  exact Node.mem_preorder_trans mem
    (Node.mem_preorder_of_mem_children (inside declared) generic.self_mem_preorder)

/-- To enter anything but a reference finds out nothing about references. -/
theorem enter_quiet (covers : Covers root names named) (mem : node ∈ root.preorder)
    (other : node.referenceKind? = none) : Keeps (Quiet named here) (enter names node) := by
  have go (direction : Direction) :
      Keeps (Quiet named here) (pure direction : Resolving Direction) :=
    Step.ensures_pure trivial
  obtain ⟨id, kind⟩ := node
  cases kind with
  | namespaceDecl name declarations =>
    refine (openDeclaration_quiet name).bind fun _ _ => Step.ensures_get.bind fun progress _ =>
      Ensures.bind (Step.ensures_modify fun _ quiet => ?_) fun _ _ => go _
    exact quiet.change (quiet.framed.values.pushFrame (covers.members .value _))
      (quiet.framed.types.pushFrame (covers.members .type _)) quiet.framed.fields
  | functionDecl name generics parameters result body =>
    have new := covers.generics mem generics
      fun _ mem => List.mem_append_left _ (List.mem_append_left _ mem)
    exact (bindValue_quiet (covers.declared _ mem name rfl)).bind fun _ _ =>
      (openDeclaration_quiet name).bind fun _ _ => openValues_quiet.bind fun _ _ =>
        (openGenerics_quiet new).bind fun _ _ => go _
  | recordDecl name generics declarations =>
    have new := covers.generics mem generics (List.subset_append_left _ _)
    refine (openDeclaration_quiet name).bind fun _ _ => (openGenerics_quiet new).bind
      fun _ _ => Ensures.bind (Step.ensures_modify fun _ quiet => ?_) fun _ _ => go _
    exact quiet.change quiet.framed.values quiet.framed.types quiet.framed.fields
  | enumerationDecl name generics cases =>
    have new := covers.generics mem generics (List.subset_append_left _ _)
    exact (openDeclaration_quiet name).bind fun _ _ => (openGenerics_quiet new).bind
      fun _ _ => go _
  | branch | loop => exact openValues_quiet.bind fun _ _ => go _
  | identifier | member | typeName => cases other
  | _ => exact go _

/-- To leave a node finds out nothing about references. -/
theorem leave_quiet (covers : Covers root names named) (mem : node ∈ root.preorder) :
    Keeps (Quiet named here) (leave node) := by
  obtain ⟨id, kind⟩ := node
  cases kind with
  | namespaceDecl =>
    exact closeValues_quiet.bind fun _ _ => closeTypes_quiet.bind fun _ _ => closeDeclaration_quiet
  | functionDecl =>
    exact closeTypes_quiet.bind fun _ _ => closeValues_quiet.bind fun _ _ => closeDeclaration_quiet
  | recordDecl =>
    refine closeTypes_quiet.bind fun _ _ => closeDeclaration_quiet.bind fun _ _ =>
      Step.ensures_get.bind fun progress quiet =>
        Ensures.bind (Step.ensures_modify fun _ later => ?_) fun _ _ =>
          Ensures.bind (Step.ensures_forIn fun field among => ?_) fun _ _ =>
            Step.ensures_pure trivial
    · exact later.change later.framed.values later.framed.types nofun
    · exact (bindValue_quiet (quiet.framed.fields field among)).bind fun _ _ =>
        Step.ensures_pure rfl
  | enumerationDecl => exact closeTypes_quiet.bind fun _ _ => closeDeclaration_quiet
  | branch | loop => exact closeValues_quiet
  | parameter name => exact bindValue_quiet (covers.declared _ mem name rfl)
  | variableDecl name =>
    have new := covers.declared _ mem name rfl
    refine Step.ensures_get.bind fun progress _ => ?_
    split
    · refine Step.ensures_modify fun _ quiet =>
        quiet.change quiet.framed.values quiet.framed.types fun field among => ?_
      rcases List.mem_append.1 among with before | last
      · exact quiet.framed.fields field before
      · cases List.mem_singleton.1 last
        exact new
    · exact bindValue_quiet new
  | _ => exact Step.ensures_pure trivial

end Quiet

section Run

variable {root : Node} {names : Namespace} {named : String → NodeId → Prop}
  {before after : Progress}

/-- What was found has the property under some path, and under the name of the identifier for which
it was found. -/
def Sighting.Sound (named : String → NodeId → Prop) (sighting : Sighting) : Prop :=
  ∀ id, sighting.declaration? = some id →
    (∃ path, named path id) ∧
      ∀ name, sighting.node.kind = .identifier name → named name id

/-- The references that are entered in a stretch of the tour, in its order. -/
def entered (stretch : List Moment) : List Node :=
  (stretch.filterMap Moment.entered?).filter (·.referenceKind?.isSome)

theorem entered_append (stretch later : List Moment) :
    entered (stretch ++ later) = entered stretch ++ entered later := by
  rw [entered, List.filterMap_append, List.filter_append]
  rfl

/-- The references that are entered are nodes of the tree, in preorder. -/
theorem entered_sublist (root : Node) : (entered (moments root)).Sublist root.preorder := by
  rw [entered, entered_moments]
  exact List.filter_sublist.trans root.exposed_sublist

/-- Seeing a reference changes no binding. -/
theorem Framed.see (framed : Framed named before) (sighting : Sighting) :
    Framed named (before.see sighting) := by
  obtain ⟨node, kind, isReference, declaration?⟩ := sighting
  cases kind <;> cases declaration? <;> exact ⟨framed.values, framed.types, framed.fields⟩

/-- What is found for a reference has the property. -/
theorem sound_look (covers : Covers root names named) (framed : Framed named before) {node : Node}
    {id : NodeId} (found : look names before node = some id) :
    (∃ path, named path id) ∧ ∀ name, node.kind = .identifier name → named name id := by
  have byPath (kind : NameKind) {path : String}
      (found : lookupQualified (names.table kind) before.enclosing path = some id) :
      ∃ path, named path id := by
    obtain ⟨depth, -, here⟩ := List.exists_of_findSome?_eq_some found
    exact ⟨_, covers.paths kind _ id here⟩
  unfold look at found
  split at found
  · rename_i name isIdentifier
    have holds := framed.values.lookup found
    refine ⟨⟨name, holds⟩, fun other same => ?_⟩
    cases isIdentifier.symm.trans same
    exact holds
  · rename_i object member isMember
    obtain ⟨path, -, found⟩ := Option.bind_eq_some_iff.1 found
    refine ⟨byPath .value found, fun name same => ?_⟩
    cases isMember.symm.trans same
  · rename_i name arguments isTypeName
    refine ⟨?_, fun other same => by cases isTypeName.symm.trans same⟩
    rcases Option.or_eq_some_iff.1 found with own | ⟨-, found⟩
    · exact ⟨name, framed.types.lookup own⟩
    · exact byPath .type found
  · cases found

/-- At one moment, a reference is seen if one is entered. -/
theorem act_sees (covers : Covers root names named) {moment : Moment}
    (mem : moment.node ∈ root.preorder) (framed : Framed named before)
    (ran : act names moment before = (.ok (), after)) :
    ∃ seen, Notes seen before after ∧ seen.map Sighting.node = entered [moment] ∧
      Framed named after ∧ ∀ sighting ∈ seen, sighting.Sound named := by
  have unseen (quiet : Quiet named before after) (none : entered [moment] = []) :
      ∃ seen, Notes seen before after ∧ seen.map Sighting.node = entered [moment] ∧
        Framed named after ∧ ∀ sighting ∈ seen, sighting.Sound named :=
    ⟨[], quiet.notes, none.symm, quiet.framed, nofun⟩
  cases moment with
  | leaving node => exact unseen ((leave_quiet covers mem).after_ok (.refl framed) ran) rfl
  | entering node =>
    cases isReference : node.referenceKind? with
    | none =>
      have enters : Keeps (Quiet named before) (act names (.entering node)) :=
        (enter_quiet covers mem isReference).bind fun _ _ => Step.ensures_pure trivial
      exact unseen (enters.after_ok (.refl framed) ran)
        (by simp [entered, Moment.entered?, isReference])
    | some kind =>
      cases (enter_reference names isReference before).symm.trans ran
      refine ⟨[⟨node, kind, isReference, look names before node⟩], notes_see _ _,
        by simp [entered, Moment.entered?, isReference], framed.see _, fun sighting seen => ?_⟩
      cases List.mem_singleton.1 seen
      exact fun id found => sound_look covers framed found

/-- A stretch of the tour sees the references that it enters, one after the other. -/
theorem run_sees (covers : Covers root names named) {stretch : List Moment}
    (inside : ∀ moment ∈ stretch, moment.node ∈ root.preorder) (framed : Framed named before)
    (ran : stretch.forM (act names) before = (.ok (), after)) :
    ∃ seen, Notes seen before after ∧ seen.map Sighting.node = entered stretch ∧
      Framed named after ∧ ∀ sighting ∈ seen, sighting.Sound named := by
  induction stretch generalizing before with
  | nil =>
    cases ran
    exact ⟨[], (Quiet.refl framed).notes, rfl, framed, nofun⟩
  | cons moment stretch ih =>
    have ran : (act names moment >>= fun _ => stretch.forM (act names)) before = (.ok (), after) :=
      ran
    obtain ⟨_, middle, first, rest⟩ := Step.bind_ok_inv ran
    obtain ⟨seen, noted, nodes, framed, sound⟩ :=
      act_sees covers (inside moment List.mem_cons_self) framed first
    obtain ⟨more, notedMore, nodesMore, framed, soundMore⟩ :=
      ih (fun other mem => inside other (List.mem_cons_of_mem _ mem)) framed rest
    refine ⟨seen ++ more, noted.trans notedMore, ?_, framed, fun sighting mem => ?_⟩
    · rw [List.map_append, nodes, nodesMore, ← entered_append]
      rfl
    · exact (List.mem_append.1 mem).elim (sound sighting) (soundMore sighting)

end Run

end Scope

end DeclLang
