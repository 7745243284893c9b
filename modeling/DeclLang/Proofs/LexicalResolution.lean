import DeclLang.Proofs.Paths
import DeclLang.Proofs.ScopeTours

/-!
# References are resolved by the lexical rule

**Input.**  A tree with distinct identities of 128 bits, whose records contain nothing but
variables, and an identifier in it that is not part of a member expression.

**Invariant.**  `Scope.Represents`: when the tour comes to a place, every frame on the stack knows
what the scope of the rule at that place knows.

**Results.**
* `Scope.tour_visits`: the tour comes to every place that is not part of a member expression, and
  what it finds out there is what is known in the end.
* `Scope.build_resolves`: the identifier stands for the declaration that the rule says; if the rule
  says none, it is undefined, and one warning is about it.
-/

namespace DeclLang

open Step (Keeps Ensures)

section Tables

variable {α : Type}

/-- Later insertions win. -/
theorem getElem?_foldl_insert (bindings : List (String × α)) (frame : Frame α) (name : String) :
    (bindings.foldl (fun frame binding => frame.insert binding.1 binding.2) frame)[name]? =
      (bindings.reverse.lookup name).or frame[name]? := by
  induction bindings generalizing frame with
  | nil => rfl
  | cons binding bindings ih =>
    obtain ⟨key, value⟩ := binding
    rw [List.foldl_cons, ih, List.reverse_cons, List.lookup_append, Option.or_assoc,
      Std.TreeMap.getElem?_insert]
    by_cases same : name = key
    · simp [same]
    · have different : ¬compare key name = .eq := by
        simpa using Ne.symm same
      simp [different, List.lookup_cons, beq_false_of_ne same]

/-- A list that gives a name one value at most gives it that value. -/
theorem lookup_eq_of_mem_iff {bindings : List (String × α)} {name : String} {value? : Option α}
    (h : ∀ value, (name, value) ∈ bindings ↔ value? = some value) :
    bindings.lookup name = value? := by
  cases found : bindings.lookup name with
  | some value =>
    obtain ⟨before, after, rfl, -⟩ := List.lookup_eq_some_iff.1 found
    exact ((h value).1 (List.mem_append_right _ List.mem_cons_self)).symm
  | none =>
    cases value? with
    | none => rfl
    | some value =>
      have missing := List.lookup_eq_none_iff.1 found _ ((h value).2 rfl)
      simp at missing

end Tables

namespace Scope

variable {names : Namespace} {levels : List Level}

/-- A frame knows what a scope of the rule knows about names without dots. -/
def Knows (frame : Frame NodeId) (scope : LexicalScope) : Prop :=
  ∀ name : String, '.' ∉ name.toList → frame[name]? = scope.candidate name

/-- The tour has come to a place: the enclosing declarations are those around it, and the frames
know what the scopes around it know. -/
structure Represents (names : Namespace) (levels : List Level) (progress : Progress) : Prop where
  enclosing : progress.enclosing = pathOf levels
  frames : List.Forall₂ Knows progress.scope.values.frames (scopesAround names levels [])

theorem Represents.lookup {progress : Progress} (represents : Represents names levels progress)
    {name : String} (plain : '.' ∉ name.toList) :
    progress.scope.values.lookup name = declarationOf? names levels name := by
  have same {frames : List (Frame NodeId)} {scopes : List LexicalScope}
      (h : List.Forall₂ Knows frames scopes) :
      (frames.findSome? fun frame => frame[name]?) =
        scopes.findSome? fun scope => scope.candidate name := by
    induction h with
    | nil => rfl
    | cons knows _ ih => rw [List.findSome?_cons, List.findSome?_cons, knows name plain, ih]
  exact same represents.frames

section Frames

/-- A new frame knows what its bindings say. -/
theorem knows_pushFrame {bindings : List (String × NodeId)} {table : String → Option NodeId}
    (h : ∀ name : String, '.' ∉ name.toList →
      ∀ id, (name, id) ∈ bindings ↔ table name = some id) :
    Knows (bindings.foldl (fun frame binding => frame.insert binding.1 binding.2) ∅)
      { made := [], table } := by
  intro name plain
  rw [getElem?_foldl_insert, lookup_eq_of_mem_iff fun id =>
    List.mem_reverse.trans (h name plain id)]
  exact Option.or_none

/-- Binding in the innermost frame is making in the innermost scope. -/
theorem forall₂_bindAll {stack : ScopeStack NodeId}
    (h : List.Forall₂ Knows stack.frames (scopesAround names levels []))
    (later : List (String × NodeId)) :
    List.Forall₂ Knows (stack.bindAll later).frames (scopesAround names levels later) := by
  obtain ⟨scope, outer, start, made⟩ := scopesAround_later names levels later
  obtain ⟨frames⟩ := stack
  rw [start] at h
  rw [made]
  cases h with
  | @cons frame _ frames _ knows rest =>
    refine .cons (fun name plain => ?_) rest
    rw [getElem?_foldl_insert, knows name plain]
    unfold LexicalScope.candidate
    rw [List.reverse_append, List.lookup_append, Option.or_assoc]

/-- The members of a namespace are the entries of the table one name further. -/
theorem mem_membersOf {table : Std.TreeMap String NodeId} {owner name : String} {id : NodeId}
    (plain : '.' ∉ name.toList) :
    (name, id) ∈ membersOf table owner ↔ table[owner ++ "." ++ name]? = some id := by
  unfold membersOf
  rw [List.mem_filterMap]
  constructor
  · rintro ⟨⟨path, declared⟩, mem, found⟩
    obtain ⟨member, isMember, same⟩ := Option.map_eq_some_iff.1 found
    cases same
    obtain ⟨rfl, -⟩ := Path.memberName?_eq_some_iff.1 isMember
    exact Std.TreeMap.mem_toList_iff_getElem?_eq_some.1 mem
  · intro found
    refine ⟨(owner ++ "." ++ name, id), Std.TreeMap.mem_toList_iff_getElem?_eq_some.2 found, ?_⟩
    rw [Path.memberName?_eq_some_iff.2 ⟨rfl, plain⟩]
    rfl

end Frames

/-- At the root the frame of the whole namespace is open. -/
theorem represents_outermost (names : Namespace) :
    Represents names [] { scope := outermost names } where
  enclosing := rfl
  frames := .cons (knows_pushFrame fun _ _ _ => Std.TreeMap.mem_toList_iff_getElem?_eq_some) .nil

section Children

variable {inside : Bool} {node : Node} {progress : Progress}

/-- Entering a node that opens no scope and adds nothing to paths comes to the same scopes. -/
theorem Represents.stays (represents : Represents names levels progress) {entered : Progress}
    {ids : List NodeId} (completes : Completes ids [] [] progress entered)
    (path : node.qualifier? = none)
    (scopes : scopesAround names (⟨node, []⟩ :: levels) [] = scopesAround names levels []) :
    Represents names (⟨node, []⟩ :: levels) entered where
  enclosing := by
    rw [pathOf_cons, completes.enclosing, represents.enclosing, path]
    exact (List.append_nil _).symm
  frames := by
    rw [scopes, completes.values, ScopeStack.bindAll_nil]
    exact represents.frames

/-- Entering a node that is not a member expression comes to the place of its first child. -/
theorem enter_represents (fits : node.Fits inside) (ready : Ready inside progress)
    (represents : Represents names levels progress) (visited : node.isMember = false) :
    ∃ entered, enter names node progress = (.ok .descend, entered) ∧
      Ready (node.within inside) entered ∧ Represents names (⟨node, []⟩ :: levels) entered ∧
      ∀ id, NodeId.text id ≠ NodeId.text node.id → AgreesAt id progress entered := by
  obtain ⟨id, kind⟩ := node
  have stays : Ready (inside || false) progress := (Bool.or_false inside).symm ▸ ready
  have path (name : String) {qualified : Node} (same : qualified.qualifier? = some name) :
      progress.enclosing ++ [name] = pathOf (⟨qualified, []⟩ :: levels) := by
    rw [pathOf_cons, represents.enclosing, same]
    rfl
  have none (name : String) (_ : '.' ∉ name.toList) (id : NodeId) :
      (name, id) ∈ ([] : List (String × NodeId)) ↔ Option.none = some id := ⟨nofun, nofun⟩
  have empty : Knows ∅ { made := [], table := fun _ => Option.none } := knows_pushFrame none
  cases kind with
  | functionDecl name generics parameters returnType body =>
    obtain rfl := fits.outside rfl rfl
    exact ⟨_, enter_function names ready.frames,
      { ready with frames := List.cons_ne_nil _ _ },
      ⟨path name rfl, .cons empty (forall₂_bindAll represents.frames _)⟩,
      fun _ _ => .of_eq rfl rfl rfl rfl⟩
  | namespaceDecl name declarations =>
    obtain rfl := fits.outside rfl rfl
    have whole : progress.enclosing ++ [name] =
      pathOf (⟨.mk id (.namespaceDecl name declarations), []⟩ :: levels) := path name rfl
    refine ⟨_, enter_namespace names, { ready with frames := List.cons_ne_nil _ _ },
      ⟨whole, .cons (knows_pushFrame fun member plain id => ?_) represents.frames⟩,
      fun _ _ => .of_eq rfl rfl rfl rfl⟩
    rw [mem_membersOf plain, whole]
  | recordDecl name generics declarations =>
    obtain rfl := fits.outside rfl rfl
    exact ⟨_, enter_record names,
      { ready with records := (decide_eq_true (Nat.succ_pos _)).symm, fields := nofun },
      ⟨path name rfl, represents.frames⟩, fun _ _ => .of_eq rfl rfl rfl rfl⟩
  | enumerationDecl name generics cases =>
    obtain rfl := fits.outside rfl rfl
    exact ⟨_, enter_enumeration names, { ready with },
      ⟨path name rfl, represents.frames⟩, fun _ _ => .of_eq rfl rfl rfl rfl⟩
  | branch condition block =>
    exact ⟨_, enter_block names (.inl rfl), { stays with frames := List.cons_ne_nil _ _ },
      ⟨by rw [pathOf_cons, represents.enclosing]; exact (List.append_nil _).symm,
        .cons empty represents.frames⟩, fun _ _ => .of_eq rfl rfl rfl rfl⟩
  | loop condition block =>
    exact ⟨_, enter_block names (.inr rfl), { stays with frames := List.cons_ne_nil _ _ },
      ⟨by rw [pathOf_cons, represents.enclosing]; exact (List.append_nil _).symm,
        .cons empty represents.frames⟩, fun _ _ => .of_eq rfl rfl rfl rfl⟩
  | identifier name =>
    obtain ⟨entered, enters, first⟩ := resolveIdentifier_completes id name progress
    exact ⟨entered, (Step.bind_ok enters).trans rfl, first.ready stays fun _ => rfl,
      represents.stays first rfl rfl,
      fun other different => first.elsewhere other fun mem =>
        different (List.mem_singleton.1 mem)⟩
  | typeName name arguments =>
    obtain ⟨entered, enters, first⟩ := resolveTypeName_completes names id name progress
    exact ⟨entered, (Step.bind_ok enters).trans rfl, first.ready stays fun _ => rfl,
      represents.stays first rfl rfl,
      fun other different => first.elsewhere other fun mem =>
        different (List.mem_singleton.1 mem)⟩
  | member object name => cases visited
  | _ =>
    exact ⟨progress, rfl, stays, represents.stays (.refl [] _) rfl rfl, fun _ _ => .refl _⟩

/-- Elder siblings come to the place of the next one. -/
theorem siblings_represent (fits : node.Fits inside) {elders : List Node}
    (among : ∀ elder ∈ elders, elder ∈ node.children) {ids : List NodeId}
    {queued : List (String × NodeId)} {entered touring : Progress}
    (represents : Represents names (⟨node, []⟩ :: levels) entered)
    (completes : Completes ids
      (cond (node.within inside) [] (elders.flatMap Node.bindings)) queued entered touring) :
    Represents names (⟨node, elders⟩ :: levels) touring := by
  have made : cond (node.within inside) [] (elders.flatMap Node.bindings) =
      Level.made ⟨node, elders⟩ := by
    have quiet (same : inside = true) : elders.flatMap Node.bindings = [] := by
      subst same
      refine List.flatMap_eq_nil_iff.2 fun elder mem => ?_
      rcases fits with field | silent
      · exact (field.2 elder (among elder mem)).bindings_eq
      · exact (silent.child (among elder mem)).bindings_eq
    obtain ⟨id, kind⟩ := node
    cases kind with
    | recordDecl name generics declarations => cases inside <;> rfl
    | _ =>
      cases inside with
      | false => rfl
      | true => exact (quiet rfl).symm
  refine ⟨?_, ?_⟩
  · rw [completes.enclosing, represents.enclosing, pathOf_cons, pathOf_cons]
  · rw [completes.values, made, scopesAround_elders, List.append_nil]
    exact forall₂_bindAll represents.frames _

end Children

section Leave

variable {id : NodeId} {touring : Progress}

/-- A change of scopes finds out nothing. -/
theorem modify_agrees {f : Progress → Progress}
    (h : ∀ progress, AgreesAt id progress (f progress)) :
    Keeps (AgreesAt id touring) (modify f : Resolving PUnit) :=
  Step.ensures_modify fun progress agrees => agrees.trans (h progress)

theorem closeDeclaration_agrees : Keeps (AgreesAt id touring) closeDeclaration :=
  modify_agrees fun _ => .of_eq rfl rfl rfl rfl

theorem closeValues_agrees : Keeps (AgreesAt id touring) closeValues := by
  refine Step.ensures_get.bind fun progress _ => ?_
  split
  · exact modify_agrees fun _ => .of_eq rfl rfl rfl rfl
  · exact Step.ensures_throw _

theorem closeTypes_agrees : Keeps (AgreesAt id touring) closeTypes := by
  refine Step.ensures_get.bind fun progress _ => ?_
  split
  · exact modify_agrees fun _ => .of_eq rfl rfl rfl rfl
  · exact Step.ensures_throw _

theorem bindValue_agrees (name : String) (declaration : NodeId) :
    Keeps (AgreesAt id touring) (bindValue name declaration) := by
  refine Step.ensures_get.bind fun progress _ => ?_
  split
  · exact modify_agrees fun _ => .of_eq rfl rfl rfl rfl
  · exact Step.ensures_throw _

/-- Leaving a node finds out nothing. -/
theorem leave_agrees (node : Node) : Keeps (AgreesAt id touring) (leave node) := by
  unfold Scope.leave
  split
  · exact closeValues_agrees.bind fun _ _ => closeTypes_agrees.bind fun _ _ =>
      closeDeclaration_agrees
  · exact closeTypes_agrees.bind fun _ _ => closeValues_agrees.bind fun _ _ =>
      closeDeclaration_agrees
  · refine closeTypes_agrees.bind fun _ _ => closeDeclaration_agrees.bind fun _ _ =>
      Step.ensures_get.bind fun progress _ => Ensures.bind
        (modify_agrees fun _ => .of_eq rfl rfl rfl rfl) fun _ _ => ?_
    refine Ensures.bind (Step.ensures_forIn fun field _ => ?_) fun _ _ => Step.ensures_pure trivial
    exact (bindValue_agrees field.1 field.2).bind fun _ _ => Step.ensures_pure rfl
  · exact closeTypes_agrees.bind fun _ _ => closeDeclaration_agrees
  · exact closeValues_agrees
  · exact closeValues_agrees
  · exact bindValue_agrees _ _
  · refine Step.ensures_get.bind fun progress _ => ?_
    split
    · exact modify_agrees fun _ => .of_eq rfl rfl rfl rfl
    · exact bindValue_agrees _ _
  · exact Step.ensures_pure trivial

end Leave

section Visits

variable {root node parent : Node} {start final before entered touring after : Progress}

/-- The tour is at the place of a node: what it finds out below the node is what is known in the
end, and nothing of it was known before. -/
structure Visits (names : Namespace) (levels : List Level) (node : Node)
    (start final before after : Progress) : Prop where
  represents : Represents names levels before
  tour : node.tour (visitor names none) before = (.ok true, after)
  new : ∀ id ∈ node.identities, AgreesAt id start before
  lasting : ∀ id ∈ node.identities, AgreesAt id after final

/-- A tour that went on to the children and came to its end has left the node. -/
theorem leave_of_tour (enters : enter names node before = (.ok .descend, entered))
    (children : node.children.allM (Node.tour (visitor names none)) entered = (.ok true, touring))
    (toured : node.tour (visitor names none) before = (.ok true, after)) :
    leave node touring = (.ok (), after) := by
  have enters : (visitor names none).enter node before = (.ok .descend, entered) := enters
  rw [Node.tour_eq, Step.bind_ok enters] at toured
  dsimp only at toured
  rw [Step.bind_ok children, if_pos rfl] at toured
  obtain ⟨_, _, left, ended⟩ := Step.bind_ok_inv toured
  cases ended
  exact left

theorem allM_append {elders others : List Node}
    (first : elders.allM (Node.tour (visitor names none)) before = (.ok true, entered)) :
    (elders ++ others).allM (Node.tour (visitor names none)) before =
      others.allM (Node.tour (visitor names none)) entered := by
  induction elders generalizing before with
  | nil =>
    cases first
    rfl
  | cons elder elders ih =>
    rw [List.allM] at first
    obtain ⟨toured, middle, ran, rest⟩ := Step.bind_ok_inv first
    cases toured with
    | false => cases rest
    | true =>
      rw [List.cons_append, List.allM, Step.bind_ok ran]
      exact ih rest

variable (distinct : root.Distinct) (legible : root.Legible)

include legible in
/-- An identity is written like none of the others. -/
theorem apart_of_not_mem {ids : List NodeId} (inside : ∀ other ∈ ids, other ∈ root.identities)
    {id : NodeId} (mem : id ∈ root.identities) (absent : id ∉ ids) :
    NodeId.text id ∉ ids.map NodeId.text := by
  intro written
  obtain ⟨other, among, same⟩ := List.mem_map.1 written
  exact absurd (legible other (inside other among) id mem same ▸ among) absent

include distinct legible

/-- From a node that is no member expression the tour goes on to every child. -/
theorem Visits.child {inside : Bool} {child : Node} {elders younger : List Node}
    (visits : Visits names levels parent start final before after)
    (mem : parent ∈ root.preorder) (fits : parent.Fits inside) (ready : Ready inside before)
    (visited : parent.isMember = false) (children : parent.children = elders ++ child :: younger) :
    ∃ begin' ended, Ready (parent.within inside) begin' ∧
      Visits names (⟨parent, elders⟩ :: levels) child start final begin' ended := by
  have among : ∀ sibling ∈ elders ++ child :: younger, sibling ∈ parent.children :=
    fun sibling mem => children ▸ mem
  have tours (sibling : Node) (mem : sibling ∈ elders ++ child :: younger) :
      Tours names (parent.within inside) sibling :=
    tour_completes names (fits.child (among sibling mem))
  have queues (siblings : List Node) (outside : parent.within inside = false) :
      cond (parent.within inside) (siblings.flatMap Node.bindings) [] = [] := by
    rw [outside]
    rfl
  -- The tour of the children: the elder ones, this one, the younger ones.
  obtain ⟨entered, enters, readyEntered, here, agrees⟩ :=
    enter_represents fits ready visits.represents visited
  obtain ⟨middle, touredElders, completesElders⟩ := tour_siblings
    (fun elder mem => tours elder (List.mem_append_left _ mem)) readyEntered
  have readyMiddle := completesElders.ready readyEntered (queues elders)
  obtain ⟨later, touredChild, completesChild⟩ :=
    tours child (List.mem_append_right _ List.mem_cons_self) middle readyMiddle
  have readyLater := completesChild.ready readyMiddle fun outside => by rw [outside]; rfl
  obtain ⟨last, touredYounger, completesYounger⟩ := tour_siblings (fun sibling mem =>
    tours sibling (List.mem_append_right _ (List.mem_cons_of_mem _ mem))) readyLater
  have whole : parent.children.allM (Node.tour (visitor names none)) entered =
      (.ok true, last) := by
    rw [children, allM_append touredElders, List.allM, Step.bind_ok touredChild]
    exact touredYounger
  have left := leave_of_tour enters whole visits.tour
  -- What is found out about the siblings is not about the child.
  have own : child.identities ⊆ parent.identities :=
    Node.identities_subset (Node.mem_preorder_of_mem_descendants
      (Node.mem_descendants_of_mem_children
        (among child (List.mem_append_right _ List.mem_cons_self))))
  have inRoot : parent.identities ⊆ root.identities := Node.identities_subset mem
  have parts : parent.identities = parent.id :: (elders.flatMap Node.identities ++
      (child.identities ++ younger.flatMap Node.identities)) := by
    rw [Node.identities_eq, children, List.flatMap_append, List.flatMap_cons]
  have nodup := distinct.inner mem
  rw [Node.Distinct, parts, List.nodup_cons, List.nodup_append', List.nodup_append'] at nodup
  obtain ⟨notParent, -, ⟨-, -, notYounger⟩, notElders⟩ := nodup
  have apart {ids : List NodeId} (sub : ids ⊆ parent.identities) {id : NodeId}
      (mem : id ∈ child.identities) (absent : id ∉ ids) :
      NodeId.text id ∉ ids.map NodeId.text :=
    apart_of_not_mem legible (fun other among => inRoot (sub among)) (inRoot (own mem)) absent
  refine ⟨middle, later, readyMiddle, ?_, touredChild, fun id mem => ?_, fun id mem => ?_⟩
  · exact siblings_represent fits (fun elder mem => among elder (List.mem_append_left _ mem)) here
      completesElders
  · have fromParent : NodeId.text id ∉ [parent.id].map NodeId.text := by
      refine apart (fun other among => ?_) mem fun among => ?_
      · rw [List.mem_singleton.1 among, parts]
        exact List.mem_cons_self
      · rw [List.mem_singleton.1 among] at mem
        exact notParent (List.mem_append_right _ (List.mem_append_left _ mem))
    have fromElders : NodeId.text id ∉ (elders.flatMap Node.identities).map NodeId.text := by
      refine apart (fun other among => ?_) mem fun among =>
        notElders among (List.mem_append_left _ mem)
      rw [parts]
      exact List.mem_cons_of_mem _ (List.mem_append_left _ among)
    exact ((visits.new id (own mem)).trans
      (agrees id fun same => fromParent (List.mem_singleton.2 same))).trans
        (completesElders.elsewhere id fromElders)
  · have fromYounger : NodeId.text id ∉ (younger.flatMap Node.identities).map NodeId.text := by
      refine apart (fun other among => ?_) mem fun among => notYounger mem among
      rw [parts]
      exact List.mem_cons_of_mem _ (List.mem_append_right _ (List.mem_append_right _ among))
    have leaving : AgreesAt id last after := (leave_agrees parent).after_ok (.refl last) left
    exact ((completesYounger.elsewhere id fromYounger).trans leaving).trans
      (visits.lasting id (own mem))

/-- The tour comes to every place, unless it is part of a member expression; then nothing is found
out there. -/
theorem tour_visits (fits : root.Fits false) (ready : Ready false start)
    (represents : Represents names [] start)
    (toured : root.tour (visitor names none) start = (.ok true, final))
    (place : root.At levels node) :
    (∃ inside before after, node.Fits inside ∧ Ready inside before ∧
        Visits names levels node start final before after) ∨
      (∃ level ∈ levels, level.parent.isMember = true) ∧
        ∀ id ∈ node.identities, AgreesAt id start final := by
  induction place with
  | here =>
    exact .inl ⟨false, start, final, fits, ready, represents, toured, fun _ _ => .refl _,
      fun _ _ => .refl _⟩
  | @deeper levels parent child elders younger outer children ih =>
    have mem : child ∈ parent.children := by simp [children]
    have own : child.identities ⊆ parent.identities :=
      Node.identities_subset (Node.mem_preorder_of_mem_descendants
        (Node.mem_descendants_of_mem_children mem))
    rcases ih with ⟨inside, before, after, fits, ready, visits⟩ | ⟨⟨level, among, isMember⟩, same⟩
    · cases visited : parent.isMember with
      | false =>
        obtain ⟨begin', ended, readyChild, visitsChild⟩ :=
          visits.child distinct legible outer.mem_preorder fits ready visited children
        exact .inl ⟨_, begin', ended, fits.child mem, readyChild, visitsChild⟩
      | true =>
        refine .inr ⟨⟨_, List.mem_cons_self, visited⟩, fun id below => ?_⟩
        have notParent := (distinct.inner outer.mem_preorder).not_mem_child mem
        have inRoot := Node.identities_subset outer.mem_preorder
        have apart : NodeId.text id ∉ [parent.id].map NodeId.text := by
          refine apart_of_not_mem legible (fun other among => ?_) (inRoot (own below))
            fun among => ?_
          · rw [List.mem_singleton.1 among]
            exact inRoot (Node.id_mem_identities parent.self_mem_preorder)
          · rw [List.mem_singleton.1 among] at below
            exact notParent below
        obtain ⟨parentId, kind⟩ := parent
        cases kind with
        | member object name =>
          obtain ⟨ended, passed, completes⟩ := tour_member before
          have same := visits.tour
          rw [passed] at same
          cases same
          exact ((visits.new id (own below)).trans (completes.elsewhere id apart)).trans
            (visits.lasting id (own below))
        | _ => cases visited
    · exact .inr ⟨⟨level, List.mem_cons_of_mem _ among, isMember⟩, fun id mem => same id (own mem)⟩

end Visits

/-- What is known about an identifier after it was looked up. -/
theorem tour_identifier {id : NodeId} {name : String} {before after : Progress}
    (toured : (Node.mk id (.identifier name)).tour (visitor names none) before =
      (.ok true, after)) : resolveIdentifier id name before = (.ok (), after) := by
  obtain ⟨ended, enters, -⟩ := resolveIdentifier_completes id name before
  have entered : enter names (.mk id (.identifier name)) before = (.ok .descend, ended) :=
    (Step.bind_ok enters).trans rfl
  have whole := tour_descend entered rfl rfl
  rw [toured] at whole
  cases whole
  exact enters

/-- What is known in the end about an identifier, if the rule says what it stands for. -/
def Settled (scope : Scope) (diagnostics : Diagnostics) (id : NodeId) (name : String) :
    Option NodeId → Prop
  | some declaration =>
    scope.resolve id = some declaration ∧ id ∉ scope.undefinedIdentifiers ∧
      diagnostics.warningsAbout id = []
  | none =>
    scope.resolve id = none ∧ id ∈ scope.undefinedIdentifiers ∧
      diagnostics.warningsAbout id = [NodeId.text id ++ ": undefined identifier `" ++ name ++ "`"]

/-- An identifier at which the frames know what the scopes of the rule know is settled by the
rule. -/
theorem Visits.settled {id : NodeId} {name : String} {final before after : Progress}
    (visits : Visits names levels (.mk id (.identifier name)) { scope := outermost names } final
      before after) (plain : '.' ∉ name.toList) :
    Settled final.scope final.diagnostics id name (declarationOf? names levels name) := by
  have own : id ∈ (Node.mk id (.identifier name)).identities :=
    Node.id_mem_identities (Node.self_mem_preorder _)
  have found := visits.represents.lookup plain
  have new := visits.new id own
  have lasting := visits.lasting id own
  have looked := tour_identifier visits.tour
  cases rule : declarationOf? names levels name with
  | some declaration =>
    rw [rule] at found
    rw [resolveIdentifier_some found] at looked
    cases looked
    refine ⟨?_, ?_, lasting.warnings.trans new.warnings⟩
    · unfold Scope.resolve
      rw [lasting.identifiers, Std.TreeMap.getElem?_insert_self]
      rfl
    · rw [lasting.undefined, new.undefined]
      exact Std.TreeSet.not_mem_emptyc
  | none =>
    rw [rule] at found
    rw [resolveIdentifier_none found] at looked
    cases looked
    refine ⟨?_, ?_, ?_⟩
    · unfold Scope.resolve
      rw [lasting.identifiers, new.identifiers, lasting.members, new.members]
      rfl
    · rw [lasting.undefined]
      exact Std.TreeSet.mem_insert_self
    · have phrase : ": undefined identifier `" = ": undefined " ++ "identifier" ++ " `" := rfl
      have written : NodeId.text id ++ ": undefined identifier `" ++ name ++ "`" =
          NodeId.text id ++ (": undefined " ++ ("identifier" ++ (" `" ++ (name ++ "`")))) := by
        rw [phrase]
        simp only [String.append_assoc]
      have first : Diagnostics.warningsAbout {} id = [] := rfl
      rw [lasting.warnings, written]
      simp only [String.append_assoc]
      rw [Diagnostics.warningsAbout_warn, if_pos rfl, new.warnings, first, List.nil_append]

/-- The tour of the whole tree comes to its end, and every identifier in it is settled by the rule
or hidden in a member expression; then nothing is found out about it. -/
theorem build_settles (names : Namespace) {root : Node} (distinct : root.Distinct)
    (small : ∀ id ∈ root.identities, id < NodeId.bound)
    (fields : ∀ node ∈ root.preorder, node.HoldsFields) :
    ∃ scope diagnostics, build root names none = (.ok scope, diagnostics) ∧
      ∀ levels id name, root.At levels (.mk id (.identifier name)) → '.' ∉ name.toList →
        Settled scope diagnostics id name (declarationOf? names levels name) ∨
          (∃ level ∈ levels, level.parent.isMember = true) ∧ scope.resolve id = none := by
  have fits : root.Fits false := fields
  have ready : Ready false { scope := outermost names } :=
    ⟨List.cons_ne_nil _ _, rfl, fun _ => rfl⟩
  obtain ⟨final, toured, -⟩ := tour_completes names fits _ ready
  have built : build root names none = (.ok final.scope, final.diagnostics) := by
    unfold build
    rw [toured]
  refine ⟨final.scope, final.diagnostics, built, fun levels id name place plain => ?_⟩
  rcases tour_visits distinct (Node.legible_of_lt small) fits ready (represents_outermost names)
    toured place with ⟨_, before, after, -, -, visits⟩ | ⟨hidden, same⟩
  · exact .inl (visits.settled plain)
  · have agrees := same id (Node.id_mem_identities (Node.self_mem_preorder _))
    refine .inr ⟨hidden, ?_⟩
    unfold Scope.resolve
    rw [agrees.identifiers, agrees.members]
    rfl

/-- An identifier that is not part of a member expression stands for the declaration that the rule
of lexical scopes says.  If there is none, it is undefined, and one warning is about it. -/
theorem build_resolves (names : Namespace) {root : Node} (distinct : root.Distinct)
    (small : ∀ id ∈ root.identities, id < NodeId.bound)
    (fields : ∀ node ∈ root.preorder, node.HoldsFields) {levels : List Level} {id : NodeId}
    {name : String} (place : root.At levels (.mk id (.identifier name)))
    (visited : ∀ level ∈ levels, level.parent.isMember = false) (plain : '.' ∉ name.toList) :
    ∃ scope diagnostics, build root names none = (.ok scope, diagnostics) ∧
      match declarationOf? names levels name with
      | some declaration =>
        scope.resolve id = some declaration ∧ id ∉ scope.undefinedIdentifiers ∧
          diagnostics.warningsAbout id = []
      | none =>
        scope.resolve id = none ∧ id ∈ scope.undefinedIdentifiers ∧
          diagnostics.warningsAbout id =
            [NodeId.text id ++ ": undefined identifier `" ++ name ++ "`"] := by
  obtain ⟨scope, diagnostics, built, settles⟩ := build_settles names distinct small fields
  refine ⟨scope, diagnostics, built, ?_⟩
  rcases settles levels id name place plain with settled | ⟨⟨level, among, isMember⟩, -⟩
  · revert settled
    cases declarationOf? names levels name <;> exact fun settled => settled
  · exact absurd isMember (by rw [visited level among]; decide)

section Bakery

/-- A branch that reads a field of a record, and a name that nothing has. -/
def bakeryBranch : Node :=
  .mk 11 (.branch (.mk 12 (.identifier "batch"))
    [.mk 13 (.returnStatement (some (.mk 14 (.identifier "weight")))),
      .mk 15 (.returnStatement (some (.mk 16 (.identifier "flour"))))])

def bakeryFunction : Node :=
  .mk 7 (.functionDecl "bake" [] [.mk 8 (.parameter "batch" (.mk 9 (.typeName "Boolean" [])) none)]
    (.mk 10 (.typeName "Boolean" [])) [bakeryBranch])

def bakeryNamespace : Node :=
  .mk 4 (.namespaceDecl "oven"
    [.mk 5 (.variableDecl "heat" none (some (.mk 6 (.literal (.boolean false))))), bakeryFunction])

def bakeryRecord : Node :=
  .mk 1 (.recordDecl "Loaf" []
    [.mk 2 (.variableDecl "weight" none (some (.mk 3 (.literal (.boolean true)))))])

/-- A record, and a namespace with a function that branches. -/
def bakery : Node :=
  .mk 0 (.program [bakeryRecord, bakeryNamespace])

/-- The way from the statements of the branch up to the root. -/
def bakeryLevels : List Level :=
  [⟨bakeryFunction, [.mk 8 (.parameter "batch" (.mk 9 (.typeName "Boolean" [])) none),
      .mk 10 (.typeName "Boolean" [])]⟩,
    ⟨bakeryNamespace,
      [.mk 5 (.variableDecl "heat" none (some (.mk 6 (.literal (.boolean false)))))]⟩,
    ⟨bakery, [bakeryRecord]⟩]

theorem bakeryBranch_at : bakery.At bakeryLevels bakeryBranch :=
  .deeper (.deeper (.deeper .here rfl) rfl) rfl

theorem bakery_wellFormed :
    bakery.identities.Nodup ∧ (∀ id ∈ bakery.identities, id < NodeId.bound) ∧
      ∀ node ∈ bakery.preorder, node.HoldsFields := by
  decide +kernel

/-- The field stands for itself, and the other name is undefined. -/
theorem build_resolves_bakery :
    ∃ names scope diagnostics, Namespace.build bakery = .ok names ∧
      build bakery names none = (.ok scope, diagnostics) ∧ scope.resolve 14 = some 2 ∧
      scope.resolve 16 = none ∧ 16 ∈ scope.undefinedIdentifiers ∧
      diagnostics.warningsAbout 16 =
        ["00000000-0000-0000-0000-000000000010: undefined identifier `flour`"] := by
  obtain ⟨distinct, small, fields⟩ := bakery_wellFormed
  let condition : Node := .mk 12 (.identifier "batch")
  let first : Node := .mk 13 (.returnStatement (some (.mk 14 (.identifier "weight"))))
  let second : Node := .mk 15 (.returnStatement (some (.mk 16 (.identifier "flour"))))
  let weight : List Level := ⟨first, []⟩ :: ⟨bakeryBranch, [condition]⟩ :: bakeryLevels
  let flour : List Level := ⟨second, []⟩ :: ⟨bakeryBranch, [condition, first]⟩ :: bakeryLevels
  have checked : ((Namespace.build bakery).toOption.bind fun names =>
      some (declarationOf? names weight "weight", declarationOf? names flour "flour")) =
        some (some 2, none) := by decide +kernel
  obtain ⟨names, found, rule⟩ := Option.bind_eq_some_iff.1 checked
  simp only [Option.some.injEq, Prod.mk.injEq] at rule
  obtain ⟨scope, diagnostics, toured, resolved⟩ := build_resolves names distinct small fields
    (.deeper (.deeper bakeryBranch_at rfl) rfl : bakery.At weight (.mk 14 (.identifier "weight")))
    (by decide) (by decide)
  obtain ⟨_, _, again, undefined⟩ := build_resolves names distinct small fields
    (.deeper (.deeper bakeryBranch_at rfl) rfl : bakery.At flour (.mk 16 (.identifier "flour")))
    (by decide) (by decide)
  rw [toured] at again
  cases again
  rw [rule.1] at resolved
  rw [rule.2] at undefined
  exact ⟨names, scope, diagnostics, eq_ok_of_toOption found, toured, resolved.1, undefined⟩

end Bakery

end Scope

end DeclLang
