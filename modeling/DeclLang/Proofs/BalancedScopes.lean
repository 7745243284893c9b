import DeclLang.Proofs.ScopeTours

/-!
# Scopes are opened and closed in balance

**Input.**  Any tree, any namespace and any focus; nothing is asked of the shape of the tree.

**Invariant.**  `Scope.Opened`: entering a node opens as many frames, names and records as its kind
says.  Leaving it closes as many, so that a tour which is not stopped comes back to the same level.

**Results.**
* `Scope.tour_balanced`: a tour that starts with an open frame never finds a stack empty.
* `Scope.build_balanced`: resolving the references of a tree never fails.
-/

namespace DeclLang

namespace ScopeStack

variable {α : Type} {stack : ScopeStack α}

@[simp] theorem depth_push : stack.push.depth = stack.depth + 1 := rfl

@[simp] theorem depth_pushFrame (bindings : List (String × α)) :
    (stack.pushFrame bindings).depth = stack.depth + 1 := rfl

@[simp] theorem depth_bindAll (bindings : List (String × α)) :
    (stack.bindAll bindings).depth = stack.depth := by
  obtain ⟨frames⟩ := stack
  cases frames <;> rfl

/-- A stack with an open frame has an innermost one. -/
theorem exists_frames {n : Nat} (open' : stack.depth = n + 1) :
    ∃ frame outer, stack.frames = frame :: outer ∧ (⟨outer⟩ : ScopeStack α).depth = n := by
  obtain ⟨frames⟩ := stack
  cases frames with
  | nil => simp [depth] at open'
  | cons frame outer => exact ⟨frame, outer, rfl, Nat.succ.inj open'⟩

theorem frames_ne_nil_iff : stack.frames ≠ [] ↔ 0 < stack.depth :=
  List.length_pos_iff.symm

end ScopeStack

namespace Node

/-- The number of value frames that are open inside of the node and not around it. -/
def valueFrames (node : Node) : Nat :=
  match node.kind with
  | .namespaceDecl .. | .functionDecl .. | .branch .. | .loop .. => 1
  | _ => 0

/-- The number of type frames that are open inside of the node and not around it. -/
def typeFrames (node : Node) : Nat :=
  match node.kind with
  | .namespaceDecl .. | .functionDecl .. | .recordDecl .. | .enumerationDecl .. => 1
  | _ => 0

/-- The number of records that are open inside of the node and not around it. -/
def records (node : Node) : Nat :=
  match node.kind with
  | .recordDecl .. => 1
  | _ => 0

end Node

namespace Scope

/-- The same number of frames and records is open, inside of the same declarations. -/
structure Balanced (before after : Progress) : Prop where
  values : after.scope.values.depth = before.scope.values.depth
  types : after.scope.types.depth = before.scope.types.depth
  enclosing : after.enclosing = before.enclosing
  records : after.openRecords = before.openRecords

/-- What the node opens is open in addition. -/
structure Opened (node : Node) (before after : Progress) : Prop where
  values : after.scope.values.depth = before.scope.values.depth + node.valueFrames
  types : after.scope.types.depth = before.scope.types.depth + node.typeFrames
  enclosing : after.enclosing = before.enclosing ++ node.qualifier?.toList
  records : after.openRecords = before.openRecords + node.records

variable {node : Node} {before entered middle touring after : Progress}

theorem Balanced.refl (progress : Progress) : Balanced progress progress :=
  ⟨rfl, rfl, rfl, rfl⟩

theorem Balanced.trans (first : Balanced before middle) (second : Balanced middle after) :
    Balanced before after :=
  ⟨second.values.trans first.values, second.types.trans first.types,
    second.enclosing.trans first.enclosing, second.records.trans first.records⟩

theorem Opened.balanced (opened : Opened node before middle) (same : Balanced middle after) :
    Opened node before after :=
  ⟨same.values.trans opened.values, same.types.trans opened.types,
    same.enclosing.trans opened.enclosing, same.records.trans opened.records⟩

/-- Finding out something about a reference leaves everything open. -/
theorem Completes.toBalanced {ids : List NodeId} {made queued : List (String × NodeId)}
    (h : Completes ids made queued before after) : Balanced before after where
  values := by rw [h.values, ScopeStack.depth_bindAll]
  types := by rw [h.types]
  enclosing := h.enclosing
  records := h.openRecords

/-- A node that opens nothing is entered on the same level. -/
theorem Balanced.opened (same : Balanced before after) (values : node.valueFrames = 0)
    (types : node.typeFrames = 0) (names : node.qualifier? = none) (records : node.records = 0) :
    Opened node before after where
  values := by rw [values]; exact same.values
  types := by rw [types]; exact same.types
  enclosing := by simp [names, same.enclosing]
  records := by rw [records]; exact same.records

section Nodes

variable {names : Namespace}

/-- Entering a node opens what its kind says. -/
theorem enter_opens (open' : 0 < before.scope.values.depth) (node : Node) :
    ∃ direction entered, enter names node before = (.ok direction, entered) ∧
      direction ≠ .stop ∧ Opened node before entered := by
  have ready := ScopeStack.frames_ne_nil_iff.2 open'
  obtain ⟨id, kind⟩ := node
  cases kind with
  | namespaceDecl name declarations =>
    exact ⟨_, _, enter_namespace names, nofun, ⟨rfl, rfl, rfl, rfl⟩⟩
  | functionDecl name generics parameters returnType body =>
    refine ⟨_, _, enter_function names ready, nofun, ⟨?_, rfl, rfl, rfl⟩⟩
    simp [Node.valueFrames]
  | recordDecl name generics declarations =>
    exact ⟨_, _, enter_record names, nofun, ⟨rfl, rfl, rfl, rfl⟩⟩
  | enumerationDecl name generics cases =>
    exact ⟨_, _, enter_enumeration names, nofun, ⟨rfl, rfl, rfl, rfl⟩⟩
  | branch condition block =>
    exact ⟨_, _, enter_block names (.inl rfl), nofun, ⟨rfl, rfl, by simp [Node.qualifier?], rfl⟩⟩
  | loop condition block =>
    exact ⟨_, _, enter_block names (.inr rfl), nofun, ⟨rfl, rfl, by simp [Node.qualifier?], rfl⟩⟩
  | identifier name =>
    obtain ⟨entered, resolves, found⟩ := resolveIdentifier_completes id name before
    exact ⟨_, entered, (Step.bind_ok resolves).trans rfl, nofun,
      found.toBalanced.opened rfl rfl rfl rfl⟩
  | member object name =>
    obtain ⟨entered, resolves, found⟩ :=
      resolveMember_completes names (.mk id (.member object name)) name before
    exact ⟨_, entered, (Step.bind_ok resolves).trans rfl, nofun,
      found.toBalanced.opened rfl rfl rfl rfl⟩
  | typeName name arguments =>
    obtain ⟨entered, resolves, found⟩ := resolveTypeName_completes names id name before
    exact ⟨_, entered, (Step.bind_ok resolves).trans rfl, nofun,
      found.toBalanced.opened rfl rfl rfl rfl⟩
  | _ => exact ⟨_, before, rfl, nofun, (Balanced.refl before).opened rfl rfl rfl rfl⟩

/-- Binding a name leaves everything open. -/
theorem bindValue_balanced (open' : 0 < touring.scope.values.depth) (name : String) (id : NodeId) :
    ∃ after, bindValue name id touring = (.ok (), after) ∧ Balanced touring after :=
  ⟨_, bindValue_ok (ScopeStack.frames_ne_nil_iff.2 open') name id,
    ScopeStack.depth_bindAll _, rfl, rfl, rfl⟩

/-- Leaving a node closes what its kind says. -/
theorem leave_closes (open' : 0 < before.scope.values.depth) (opened : Opened node before touring) :
    ∃ after, leave node touring = (.ok (), after) ∧ Balanced before after := by
  obtain ⟨values, types, enclosing, records⟩ := opened
  have stillOpen : 0 < touring.scope.values.depth := by omega
  obtain ⟨id, kind⟩ := node
  cases kind with
  | namespaceDecl name declarations =>
    obtain ⟨frame, outer, frames, depth⟩ := ScopeStack.exists_frames values
    obtain ⟨typeFrame, typeOuter, typeFrames, typeDepth⟩ := ScopeStack.exists_frames types
    refine ⟨_, leave_namespace frames typeFrames, depth, typeDepth, ?_, records⟩
    simp [enclosing, Node.qualifier?]
  | functionDecl name generics parameters returnType body =>
    obtain ⟨frame, outer, frames, depth⟩ := ScopeStack.exists_frames values
    obtain ⟨typeFrame, typeOuter, typeFrames, typeDepth⟩ := ScopeStack.exists_frames types
    refine ⟨_, leave_function frames typeFrames, depth, typeDepth, ?_, records⟩
    simp [enclosing, Node.qualifier?]
  | recordDecl name generics declarations =>
    obtain ⟨typeFrame, typeOuter, typeFrames, typeDepth⟩ := ScopeStack.exists_frames types
    refine ⟨_, leave_record (ScopeStack.frames_ne_nil_iff.2 stillOpen) typeFrames, ?_, typeDepth,
      ?_, ?_⟩
    · rw [ScopeStack.depth_bindAll]
      exact values
    · simp [enclosing, Node.qualifier?]
    · simp [records, Node.records]
  | enumerationDecl name generics cases =>
    obtain ⟨typeFrame, typeOuter, typeFrames, typeDepth⟩ := ScopeStack.exists_frames types
    refine ⟨_, leave_enumeration typeFrames, values, typeDepth, ?_, records⟩
    simp [enclosing, Node.qualifier?]
  | branch condition block =>
    obtain ⟨frame, outer, frames, depth⟩ := ScopeStack.exists_frames values
    exact ⟨_, leave_block (.inl rfl) frames, depth, types, enclosing.trans (List.append_nil _),
      records⟩
  | loop condition block =>
    obtain ⟨frame, outer, frames, depth⟩ := ScopeStack.exists_frames values
    exact ⟨_, leave_block (.inr rfl) frames, depth, types, enclosing.trans (List.append_nil _),
      records⟩
  | parameter name type default? =>
    have same : Balanced before touring :=
      ⟨values, types, enclosing.trans (List.append_nil _), records⟩
    obtain ⟨after, binds, balanced⟩ := bindValue_balanced stillOpen name id
    exact ⟨after, binds, same.trans balanced⟩
  | variableDecl name type? initializer? =>
    have same : Balanced before touring :=
      ⟨values, types, enclosing.trans (List.append_nil _), records⟩
    have current : (get : Resolving Progress) touring = (.ok touring, touring) := rfl
    unfold leave
    dsimp only [Node.kind_mk]
    rw [Step.bind_ok current]
    split
    · exact ⟨_, rfl, same.values, same.types, same.enclosing, same.records⟩
    · obtain ⟨after, binds, balanced⟩ := bindValue_balanced stillOpen name id
      exact ⟨after, binds, same.trans balanced⟩
  | _ => exact ⟨touring, rfl, values, types, enclosing.trans (List.append_nil _), records⟩

end Nodes

section Tours

variable {names : Namespace} {focus : Option NodeId}

/-- Siblings are toured one after the other, until the tour is stopped. -/
theorem siblings_balanced {siblings : List Node}
    (each : ∀ sibling ∈ siblings, ∀ before : Progress, 0 < before.scope.values.depth →
      ∃ toured after, sibling.tour (visitor names focus) before = (.ok toured, after) ∧
        (toured = true → Balanced before after))
    (open' : 0 < before.scope.values.depth) :
    ∃ toured after, siblings.allM (Node.tour (visitor names focus)) before = (.ok toured, after) ∧
      (toured = true → Balanced before after) := by
  induction siblings generalizing before with
  | nil => exact ⟨true, before, rfl, fun _ => .refl before⟩
  | cons sibling siblings ih =>
    obtain ⟨toured, middle, ran, balanced⟩ := each sibling List.mem_cons_self before open'
    rw [List.allM, Step.bind_ok ran]
    cases toured with
    | false => exact ⟨false, middle, rfl, fun done => by cases done⟩
    | true =>
      have first := balanced rfl
      obtain ⟨toured, after, ran, balanced⟩ :=
        ih (fun other mem => each other (List.mem_cons_of_mem _ mem))
          (first.values ▸ open' : 0 < middle.scope.values.depth)
      exact ⟨toured, after, ran, fun toTheEnd => first.trans (balanced toTheEnd)⟩

/-- A tour that starts with an open frame never finds a stack empty; unless it is stopped, it comes
back to the level at which it started. -/
theorem tour_balanced (open' : 0 < before.scope.values.depth) (node : Node) :
    ∃ toured after, node.tour (visitor names focus) before = (.ok toured, after) ∧
      (toured = true → Balanced before after) := by
  induction node using Node.children_induction generalizing before with
  | step node ih =>
    by_cases here : focus = some node.id
    · have stops : (visitor names focus).enter node before = (.ok .stop, before) := by
        simp only [visitor, if_pos here]
        rfl
      rw [Node.tour_eq, Step.bind_ok stops]
      exact ⟨false, before, rfl, nofun⟩
    · obtain ⟨direction, entered, enters, goesOn, opened⟩ :
          ∃ direction entered, enter names node before = (.ok direction, entered) ∧
            direction ≠ .stop ∧ Opened node before entered :=
        enter_opens open' node
      have enters : (visitor names focus).enter node before = (.ok direction, entered) := by
        simp only [visitor, if_neg here]
        exact enters
      have leaves (touring : Progress) (opened : Opened node before touring) :
          ∃ after, (do (visitor names focus).leave node; return true : Resolving Bool) touring =
            (.ok true, after) ∧ Balanced before after := by
        obtain ⟨after, leaves, balanced⟩ := leave_closes open' opened
        have leaves : (visitor names focus).leave node touring = (.ok (), after) := leaves
        exact ⟨after, (Step.bind_ok leaves).trans rfl, balanced⟩
      rw [Node.tour_eq, Step.bind_ok enters]
      cases direction with
      | stop => exact absurd rfl goesOn
      | pass =>
        obtain ⟨after, ends, balanced⟩ := leaves entered opened
        exact ⟨true, after, ends, fun _ => balanced⟩
      | descend =>
        have inside : 0 < entered.scope.values.depth := by
          rw [opened.values]
          omega
        obtain ⟨toured, touring, ran, same⟩ :=
          siblings_balanced (fun child mem before open' => ih child mem open') inside
        dsimp only
        rw [Step.bind_ok ran]
        cases toured with
        | false => exact ⟨false, touring, rfl, nofun⟩
        | true =>
          obtain ⟨after, ends, balanced⟩ := leaves touring (opened.balanced (same rfl))
          exact ⟨true, after, ends, fun _ => balanced⟩

/-- Resolving the references of a tree never fails, whatever the tree, the namespace and the focus
are. -/
theorem build_balanced (root : Node) (names : Namespace) (focus : Option NodeId) :
    ∃ scope diagnostics, build root names focus = (.ok scope, diagnostics) := by
  let start : Progress := { scope := outermost names }
  have open' : 0 < start.scope.values.depth := Nat.succ_pos _
  obtain ⟨toured, after, ran, -⟩ :
      ∃ toured after, root.tour (visitor names focus) start = (.ok toured, after) ∧
        (toured = true → Balanced start after) :=
    tour_balanced open' root
  unfold build
  rw [ran]
  exact ⟨_, _, rfl⟩

end Tours

end Scope

end DeclLang
