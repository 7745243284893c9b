import DeclLang.Names.Scope
import DeclLang.Proofs.ScopeStacks
import DeclLang.Proofs.StepInvariants

/-!
# What references refer to

**Results.**  A path in the namespace of a tree leads to a declaration of the tree
(`Namespace.declares_build`), and so does every resolved identifier and member expression
(`Scope.declares_build`).
-/

namespace DeclLang

open Step (Keeps Ensures)

/-- The identity belongs to a declaration of the tree. -/
def Node.Declares (root : Node) (id : NodeId) : Prop :=
  ∃ node ∈ root.preorder, node.id = id ∧ node.declaredName?.isSome

/-- A node without a name is no declaration. -/
theorem Node.not_declares {root node : Node} (distinct : root.Distinct) (mem : node ∈ root.preorder)
    (unnamed : node.declaredName? = none) : ¬root.Declares node.id := by
  rintro ⟨other, inside, same, named⟩
  rw [Node.eq_of_id_eq distinct inside mem same, unnamed] at named
  cases named

namespace Namespace

/-- Paths to values only lead to the given identities. -/
def LeadsTo (names : Namespace) (known : NodeId → Prop) : Prop :=
  ∀ (path : String) (id : NodeId), names.values[path]? = some id → known id

variable {known : NodeId → Prop}

theorem LeadsTo.register {names added : Namespace} {kind : NameKind} {path : String} {id : NodeId}
    (h : names.LeadsTo known) (new : known id) (ok : names.register kind path id = .ok added) :
    added.LeadsTo known := by
  unfold Namespace.register at ok
  split at ok
  · cases ok
  · cases ok
    intro other found same
    dsimp only at same
    rw [Std.TreeMap.getElem?_insert] at same
    split at same
    · cases same
      exact new
    · exact h other found same
  · cases ok
    exact h

theorem declare_keeps (kind : NameKind) (name : String) {id : NodeId} (new : known id) :
    Keeps (fun progress : Progress => progress.names.LeadsTo known) (declare kind name id) := by
  unfold declare
  refine Step.ensures_get.bind fun progress leads => ?_
  split
  · rename_i names ok
    exact Step.ensures_set (leads.register new ok)
  · exact Step.ensures_throw _

theorem openDeclaration_keeps (name : String) :
    Keeps (fun progress : Progress => progress.names.LeadsTo known) (openDeclaration name) :=
  Step.ensures_modify fun _ leads => leads

theorem closeDeclaration_keeps :
    Keeps (fun progress : Progress => progress.names.LeadsTo known) closeDeclaration :=
  Step.ensures_modify fun _ leads => leads

theorem enter_keeps {node : Node} (new : node.declaredName?.isSome → known node.id) :
    Keeps (fun progress : Progress => progress.names.LeadsTo known) (visitor.enter node) := by
  have goOn (name : String) (direction : Direction) :
      Keeps (fun progress : Progress => progress.names.LeadsTo known) (do
        openDeclaration name
        return direction) :=
    (openDeclaration_keeps name).bind fun _ _ => Step.ensures_pure trivial
  have new {name : String} (named : node.kind.declaredName? = some name) : known node.id :=
    new (by rw [Node.declaredName?, named]; rfl)
  unfold visitor
  dsimp only
  split
  · exact Step.ensures_pure trivial
  · exact goOn _ _
  · rename_i same
    exact (declare_keeps _ _ (new (congrArg Kind.declaredName? same))).bind fun _ _ => goOn _ _
  · rename_i same
    exact (declare_keeps _ _ (new (congrArg Kind.declaredName? same))).bind fun _ _ =>
      Step.ensures_pure trivial
  · rename_i same
    exact (declare_keeps _ _ (new (congrArg Kind.declaredName? same))).bind fun _ _ =>
      Step.ensures_pure trivial
  · rename_i same
    have declares := new (congrArg Kind.declaredName? same)
    refine (declare_keeps _ _ declares).bind fun _ _ => ?_
    split
    · exact (declare_keeps _ _ declares).bind fun _ _ => goOn _ _
    · exact goOn _ _
  · rename_i same
    exact (declare_keeps _ _ (new (congrArg Kind.declaredName? same))).bind fun _ _ => goOn _ _
  · exact Step.ensures_pure trivial

theorem leave_keeps {node : Node}
    (new : ∀ member ∈ node.children, member.declaredName?.isSome → known member.id) :
    Keeps (fun progress : Progress => progress.names.LeadsTo known) (visitor.leave node) := by
  unfold visitor
  dsimp only
  split
  · rename_i name generics cases same
    refine Ensures.bind (Step.ensures_forIn fun member inside => ?_) fun _ _ =>
      closeDeclaration_keeps
    split
    · rename_i caseName values declared
      have child : member ∈ node.children := by
        rw [Node.children, same]
        exact List.mem_append_right _ inside
      have named : member.declaredName?.isSome := by
        rw [Node.declaredName?, declared]
        rfl
      exact (declare_keeps _ _ (new member child named)).bind fun _ _ => Step.ensures_pure rfl
    · exact Step.ensures_pure rfl
  · exact closeDeclaration_keeps
  · exact closeDeclaration_keeps
  · exact closeDeclaration_keeps
  · exact Step.ensures_pure trivial

/-- Every path to a value leads to a declaration of the tree. -/
theorem leadsTo_build {root : Node} {names : Namespace} (built : build root = .ok names) :
    names.LeadsTo root.Declares := by
  have toured : Keeps (fun progress : Progress => progress.names.LeadsTo root.Declares)
      (root.tour visitor) :=
    Node.tour_ensures (fun node mem => enter_keeps fun named => ⟨node, mem, rfl, named⟩)
      fun node mem => leave_keeps fun member child named => ⟨member, Node.mem_preorder_trans mem
        (Node.mem_preorder_of_mem_children child member.self_mem_preorder), rfl, named⟩
  have start : ({} : Progress).names.LeadsTo root.Declares := fun path id found => by cases found
  have kept := (toured {} start).1
  unfold build at built
  split at built
  · rename_i ended
    cases built
    rw [ended] at kept
    exact kept
  · cases built

end Namespace

namespace Scope

variable {known : NodeId → Prop} {refers : NodeId → NodeId → Prop}

/-- Every binding on the stack has one of the given identities. -/
def Binds (stack : ScopeStack NodeId) (known : NodeId → Prop) : Prop :=
  ∀ frame ∈ stack.frames, ∀ (name : String) (id : NodeId), frame[name]? = some id → known id

/-- What is in scope and which fields wait has one of the given identities, and references are
resolved to declarations that they may refer to. -/
structure Bound (known : NodeId → Prop) (refers : NodeId → NodeId → Prop) (progress : Progress) :
    Prop where
  identifiers : ∀ (reference id : NodeId), progress.scope.identifiers[reference]? = some id →
    refers reference id
  members : ∀ (reference id : NodeId), progress.scope.members[reference]? = some id →
    refers reference id
  values : Binds progress.scope.values known
  fields : ∀ field ∈ progress.fields, known field.2

theorem Bound.resolve {progress : Progress} (h : Bound known refers progress)
    {reference id : NodeId} (found : progress.scope.resolve reference = some id) :
    refers reference id := by
  unfold Scope.resolve at found
  rcases Option.or_eq_some_iff.1 found with own | ⟨-, member⟩
  · exact h.identifiers reference id own
  · exact h.members reference id member

/-- To have one of the given identities is a property of bindings. -/
theorem Binds.every {stack : ScopeStack NodeId} (h : Binds stack known) :
    stack.Every fun _ id => known id :=
  h

/-- A change to a scope that keeps the bound identities. -/
theorem change_keeps {f : Scope → Scope}
    (h : ∀ progress : Progress, Bound known refers progress →
      Bound known refers { progress with scope := f progress.scope }) :
    Keeps (Bound known refers) (change f) :=
  Step.ensures_modify h

theorem openDeclaration_keeps (name : String) : Keeps (Bound known refers) (openDeclaration name) :=
  Step.ensures_modify fun _ bound => { bound with }

theorem closeDeclaration_keeps : Keeps (Bound known refers) closeDeclaration :=
  Step.ensures_modify fun _ bound => { bound with }

theorem openValues_keeps : Keeps (Bound known refers) openValues :=
  change_keeps fun _ bound => { bound with values := bound.values.every.push }

theorem openGenerics_keeps (generics : List Node) : Keeps (Bound known refers) (openGenerics generics) :=
  change_keeps fun _ bound => { bound with }

theorem closeValues_keeps : Keeps (Bound known refers) closeValues := by
  refine Step.ensures_get.bind fun progress bound => ?_
  split
  · rename_i frame values popped
    refine change_keeps fun progress bound' =>
      { bound' with values := bound.values.every.pop popped }
  · exact Step.ensures_throw _

theorem closeTypes_keeps : Keeps (Bound known refers) closeTypes := by
  refine Step.ensures_get.bind fun progress bound => ?_
  split
  · exact change_keeps fun _ bound => { bound with }
  · exact Step.ensures_throw _

theorem bindValue_keeps (name : String) {id : NodeId} (new : known id) :
    Keeps (Bound known refers) (bindValue name id) := by
  refine Step.ensures_get.bind fun progress bound => ?_
  split
  · rename_i replaced values done
    exact change_keeps fun _ bound' => { bound' with values := bound.values.every.bind new done }
  · exact Step.ensures_throw _

theorem warnUndefined_keeps (what name : String) (id : NodeId) :
    Keeps (Bound known refers) (warnUndefined what name id) :=
  Step.ensures_modify fun _ bound => { bound with }

theorem refers_insert {table : Std.TreeMap NodeId NodeId} {reference declaration : NodeId}
    (h : ∀ (other id : NodeId), table[other]? = some id → refers other id)
    (new : refers reference declaration) (other id : NodeId)
    (found : (table.insert reference declaration)[other]? = some id) : refers other id := by
  rw [Std.TreeMap.getElem?_insert] at found
  split at found
  · rename_i same
    cases found
    exact Std.LawfulEqCmp.eq_of_compare same ▸ new
  · exact h other id found

theorem resolveIdentifier_keeps {id : NodeId} (here : ∀ declaration, known declaration →
      refers id declaration) (name : String) :
    Keeps (Bound known refers) (resolveIdentifier id name) := by
  refine Step.ensures_get.bind fun progress bound => ?_
  split
  · rename_i declaration found
    exact change_keeps fun _ bound' => { bound' with
      identifiers :=
        refers_insert bound'.identifiers (here _ (bound.values.every.lookup found)) }
  · exact (change_keeps fun _ bound => { bound with }).bind fun _ _ => warnUndefined_keeps _ _ _

theorem lookupQualified_known {table : Std.TreeMap String NodeId}
    (h : ∀ (path : String) (id : NodeId), table[path]? = some id → known id)
    {enclosing : List String} {path : String} {id : NodeId}
    (found : lookupQualified table enclosing path = some id) : known id := by
  obtain ⟨depth, -, here⟩ := List.exists_of_findSome?_eq_some found
  exact h _ id here

theorem resolveMember_keeps {names : Namespace} (leads : names.LeadsTo known) {node : Node}
    (here : ∀ declaration, known declaration → refers node.id declaration) (member : String) :
    Keeps (Bound known refers) (resolveMember names node member) := by
  refine Step.ensures_get.bind fun progress _ => ?_
  dsimp only
  split
  · rename_i declaration found
    obtain ⟨path, -, resolved⟩ := Option.bind_eq_some_iff.1 found
    exact change_keeps fun _ bound => { bound with
      members := refers_insert bound.members (here _ (lookupQualified_known leads resolved)) }
  · exact (change_keeps fun _ bound => { bound with }).bind fun _ _ => warnUndefined_keeps _ _ _

theorem resolveTypeName_keeps (names : Namespace) (id : NodeId) (name : String) :
    Keeps (Bound known refers) (resolveTypeName names id name) := by
  refine Step.ensures_get.bind fun progress _ => ?_
  split
  · exact change_keeps fun _ bound => { bound with }
  · exact (change_keeps fun _ bound => { bound with }).bind fun _ _ => warnUndefined_keeps _ _ _

theorem known_of_mem_toList {table : Std.TreeMap String NodeId}
    (h : ∀ (path : String) (id : NodeId), table[path]? = some id → known id)
    {entry : String × NodeId} (mem : entry ∈ table.toList) : known entry.2 :=
  h entry.1 entry.2 (Std.TreeMap.mem_toList_iff_getElem?_eq_some.1 mem)

theorem membersOf_known {table : Std.TreeMap String NodeId}
    (h : ∀ (path : String) (id : NodeId), table[path]? = some id → known id) (owner : String)
    {binding : String × NodeId} (mem : binding ∈ membersOf table owner) : known binding.2 := by
  obtain ⟨entry, inside, named⟩ := List.mem_filterMap.1 mem
  obtain ⟨name, -, same⟩ := Option.map_eq_some_iff.1 named
  subst same
  exact (known_of_mem_toList h inside : known entry.2)

theorem enter_keeps {node : Node} {names : Namespace} (leads : names.LeadsTo known)
    (new : node.declaredName?.isSome → known node.id)
    (here : ∀ declaration, known declaration → refers node.id declaration) :
    Keeps (Bound known refers) (enter names node) := by
  have go (direction : Direction) :
      Keeps (Bound known refers) (pure direction : Resolving Direction) :=
    Step.ensures_pure trivial
  unfold Scope.enter
  split
  · refine (openDeclaration_keeps _).bind fun _ _ => Step.ensures_get.bind fun progress _ => ?_
    refine Ensures.bind (change_keeps fun _ bound => ?_) fun _ _ => go _
    exact { bound with values := bound.values.every.pushFrame fun _ => membersOf_known leads _ }
  · rename_i same
    have named : node.declaredName?.isSome := by
      rw [Node.declaredName?, same]
      rfl
    exact (bindValue_keeps _ (new named)).bind fun _ _ =>
      (openDeclaration_keeps _).bind fun _ _ => openValues_keeps.bind fun _ _ =>
        (openGenerics_keeps _).bind fun _ _ => go _
  · exact (openDeclaration_keeps _).bind fun _ _ => (openGenerics_keeps _).bind fun _ _ =>
      Ensures.bind (Step.ensures_modify fun _ bound => { bound with }) fun _ _ => go _
  · exact (openDeclaration_keeps _).bind fun _ _ => (openGenerics_keeps _).bind fun _ _ => go _
  · exact openValues_keeps.bind fun _ _ => go _
  · exact openValues_keeps.bind fun _ _ => go _
  · exact (resolveIdentifier_keeps here _).bind fun _ _ => go _
  · exact (resolveMember_keeps leads here _).bind fun _ _ => go _
  · exact (resolveTypeName_keeps _ _ _).bind fun _ _ => go _
  · exact go _

theorem leave_keeps {node : Node} (new : node.declaredName?.isSome → known node.id) :
    Keeps (Bound known refers) (leave node) := by
  unfold Scope.leave
  split
  · exact closeValues_keeps.bind fun _ _ => closeTypes_keeps.bind fun _ _ => closeDeclaration_keeps
  · exact closeTypes_keeps.bind fun _ _ => closeValues_keeps.bind fun _ _ => closeDeclaration_keeps
  · refine closeTypes_keeps.bind fun _ _ => closeDeclaration_keeps.bind fun _ _ =>
      Step.ensures_get.bind fun progress bound => ?_
    refine Ensures.bind (Step.ensures_modify fun _ bound => ?_) fun _ _ => ?_
    · exact { bound with fields := nofun }
    · refine Ensures.bind (Step.ensures_forIn fun field inside => ?_) fun _ _ =>
        Step.ensures_pure trivial
      exact (bindValue_keeps field.1 (bound.fields field inside)).bind fun _ _ =>
        Step.ensures_pure rfl
  · exact closeTypes_keeps.bind fun _ _ => closeDeclaration_keeps
  · exact closeValues_keeps
  · exact closeValues_keeps
  · rename_i same
    exact bindValue_keeps _ (new (by rw [Node.declaredName?, same]; rfl))
  · rename_i same
    have new : known node.id := new (by rw [Node.declaredName?, same]; rfl)
    refine Step.ensures_get.bind fun progress _ => ?_
    split
    · refine Step.ensures_modify fun _ bound => { bound with fields := fun field inside => ?_ }
      rcases List.mem_append.1 inside with before | last
      · exact bound.fields field before
      · cases List.mem_singleton.1 last
        exact new
    · exact bindValue_keeps _ new
  · exact Step.ensures_pure trivial

/-- Identifiers and member expressions only refer to declarations of the tree. -/
theorem declares_of_resolve {root : Node} {names : Namespace} {focus : Option NodeId}
    {scope : Scope} {diagnostics : Diagnostics} (named : Namespace.build root = .ok names)
    (built : build root names focus = (.ok scope, diagnostics)) {reference id : NodeId}
    (resolved : scope.resolve reference = some id) : root.Declares id := by
  have leads := Namespace.leadsTo_build named
  have toured : Keeps (Bound root.Declares fun _ => root.Declares)
      (root.tour (visitor names focus)) := by
    refine Node.tour_ensures (fun node mem => ?_)
      fun node mem => leave_keeps fun named => ⟨node, mem, rfl, named⟩
    unfold visitor
    dsimp only
    split
    · exact Step.ensures_pure trivial
    · exact enter_keeps leads (fun named => ⟨node, mem, rfl, named⟩) fun _ declares => declares
  have start : Bound root.Declares (fun _ => root.Declares) { scope := outermost names } :=
    { identifiers := fun _ _ found => by cases found
      members := fun _ _ found => by cases found
      values := ScopeStack.Every.pushFrame nofun fun _ mem => known_of_mem_toList leads mem
      fields := nofun }
  have kept := (toured _ start).1
  unfold build at built
  split at built
  · rename_i ended
    cases built
    rw [ended] at kept
    exact kept.resolve resolved
  · cases built

end Scope

end DeclLang
