import DeclLang.Proofs.EarlierReferences
import DeclLang.Proofs.StrictSemantics

/-!
# Assignments before the declaration

A variable can be assigned by its path before its declaration is executed.  A declaration that
evaluates its initializer all the same replaces the value; one that only gives a value to a variable
without one keeps it.

**Input.**  A function of which no assignment stands in front of the declaration of its target.

**Results.**
* `Strict.alike_execute`: both readings execute its statements alike, as long as no variable of
  theirs has a value yet.
* `Strict.alike_body`: so they execute its body alike, whatever its parameters are.
-/

namespace DeclLang

theorem Plain.exists_of_mem_declared {statement : Node} {id : NodeId}
    (h : id ∈ Plain.declared statement) : ∃ node ∈ statement.preorder, node.id = id := by
  induction statement using Node.children_induction with
  | step statement ih =>
    obtain ⟨self, kind⟩ := statement
    have below {block : List Node} (children : block ⊆ kind.children)
        (h : id ∈ block.flatMap declared) :
        ∃ node ∈ (Node.mk self kind).preorder, node.id = id := by
      obtain ⟨statement, inside, declares⟩ := List.mem_flatMap.1 h
      obtain ⟨node, mem, same⟩ := ih statement (children inside) declares
      exact ⟨node, Node.mem_preorder_of_mem_children (children inside) mem, same⟩
    cases kind with
    | variableDecl =>
      rw [declared] at h
      exact ⟨_, Node.self_mem_preorder _, (List.mem_singleton.1 h).symm⟩
    | branch condition block =>
      rw [declared] at h
      exact below (List.subset_cons_self _ _) h
    | loop condition block =>
      rw [declared] at h
      exact below (List.subset_cons_self _ _) h
    | _ =>
      simp only [declared] at h
      cases h

namespace Strict

section Early

variable {scope : Scope} {limits : Limits}

/-- The declaration that a node assigns. -/
def assigned? (scope : Scope) (part : Node) : Option NodeId :=
  match part.kind with
  | .assignment target _ => scope.resolve target.id
  | _ => none

/-- No assignment stands in front of the declaration of its target. -/
def Ordered (scope : Scope) (parts : List Node) : Prop :=
  parts.Pairwise fun part later => assigned? scope part ≠ some later.id

/-- Two executions of some statements are the same where none of their variables has a value, and
a declaration without a value gets none if it is not among their variables and they do not assign
it. -/
structure Alike (scope : Scope) (declared : List NodeId) (parts : List Node)
    (replaced kept : Store → Except EvalError Flow) : Prop where
  same : ∀ store, (∀ id ∈ declared, store id = none) → replaced store = kept store
  unset : ∀ store after, kept store = .ok (.next after) → ∀ id, store id = none → id ∉ declared →
    (∀ part ∈ parts, assigned? scope part ≠ some id) → after id = none

/-- Executions that never go on, or leave the store as it is, are alike. -/
theorem alike_of_still {declared : List NodeId} {parts : List Node}
    {replaced kept : Store → Except EvalError Flow} (same : ∀ store, replaced store = kept store)
    (still : ∀ store after, kept store = .ok (.next after) → after = store) :
    Alike scope declared parts replaced kept where
  same store _ := same store
  unset store after ran id unset _ _ := by rw [still store after ran, unset]

theorem Alike.mono {declared : List NodeId} {parts more : List Node}
    {replaced kept : Store → Except EvalError Flow} (h : Alike scope declared parts replaced kept)
    (subset : parts ⊆ more) : Alike scope declared more replaced kept where
  same := h.same
  unset store after ran id unset undeclared unassigned :=
    h.unset store after ran id unset undeclared fun part mem => unassigned part (subset mem)

theorem alike_repeatLoop {overrun : EvalError} {locals declared : List NodeId} {parts : List Node}
    {condition : Store → Except EvalError Bool} {replaced kept : Store → Except EvalError Flow}
    (body : Alike scope declared parts replaced kept) (subset : declared ⊆ locals) (turns : Nat) :
    Alike scope declared parts (repeatLoop overrun locals condition replaced turns)
      (repeatLoop overrun locals condition kept turns) := by
  induction turns with
  | zero =>
    refine alike_of_still (fun store => by rw [repeatLoop, repeatLoop]) fun store after ran => ?_
    obtain ⟨b, -, ran⟩ := bind_ok ran
    cases b <;> cases ran
    rfl
  | succ turns ih =>
    constructor
    · intro store clear
      rw [repeatLoop, repeatLoop, body.same store clear]
      refine bind_congr fun b => ?_
      cases b with
      | false => rfl
      | true =>
        refine bind_congr fun flow => ?_
        cases flow with
        | returned value => rfl
        | next after => exact ih.same _ fun id mem => after.without_of_mem (subset mem)
    · intro store after ran id unset undeclared unassigned
      rw [repeatLoop] at ran
      obtain ⟨b, -, ran⟩ := bind_ok ran
      cases b with
      | false =>
        cases ran
        exact unset
      | true =>
        obtain ⟨flow, inside, ran⟩ := bind_ok ran
        cases flow with
        | returned value => cases ran
        | next middle =>
          refine ih.unset _ after ran id ?_ undeclared unassigned
          by_cases dropped : id ∈ locals
          · exact middle.without_of_mem dropped
          · rw [middle.without_of_not_mem dropped]
            exact body.unset store middle inside id unset undeclared unassigned

/-- Statements are alike if each of them is and none assigns what a later one declares. -/
theorem alike_block {block : List Node}
    (each : ∀ statement ∈ block, Alike scope (Plain.declared statement) statement.preorder
      (execute .replaced scope limits statement) (execute .kept scope limits statement))
    (distinct : (block.flatMap Node.identities).Nodup)
    (ordered : Ordered scope (block.flatMap Node.preorder)) :
    Alike scope (block.flatMap Plain.declared) (block.flatMap Node.preorder)
      (executeBlock .replaced scope limits block) (executeBlock .kept scope limits block) := by
  induction block with
  | nil =>
    refine alike_of_still (fun store => by rw [executeBlock, executeBlock]) fun store after ran => ?_
    rw [executeBlock] at ran
    cases ran
    rfl
  | cons statement block ih =>
    rw [List.flatMap_cons] at distinct
    rw [List.flatMap_cons] at ordered
    have first := each statement List.mem_cons_self
    have parts := List.pairwise_append.1 ordered
    have disjoint := List.nodup_append'.1 distinct
    have rest := ih (fun other mem => each other (List.mem_cons_of_mem _ mem)) disjoint.2.1 parts.2.1
    simp only [List.flatMap_cons]
    constructor
    · intro store clear
      rw [executeBlock, executeBlock,
        first.same store fun id mem => clear id (List.mem_append_left _ mem)]
      cases ran : execute .kept scope limits statement store with
      | error error => rfl
      | ok flow =>
        cases flow with
        | returned value => rfl
        | next middle =>
          refine rest.same middle fun id mem => ?_
          obtain ⟨later, inside, declares⟩ := List.mem_flatMap.1 mem
          obtain ⟨node, below, rfl⟩ := Plain.exists_of_mem_declared declares
          have behind : node ∈ block.flatMap Node.preorder :=
            List.mem_flatMap.2 ⟨later, inside, below⟩
          refine first.unset store middle ran node.id (clear _ (List.mem_append_right _ mem)) ?_
            fun part here => parts.2.2 part here node behind
          intro here
          obtain ⟨other, above, sameId⟩ := Plain.exists_of_mem_declared here
          exact disjoint.2.2 (sameId ▸ Node.id_mem_identities above)
            (List.mem_flatMap.2 ⟨later, inside, Node.id_mem_identities below⟩)
    · intro store after ran id unset undeclared unassigned
      rw [executeBlock] at ran
      obtain ⟨flow, inside, ran⟩ := bind_ok ran
      cases flow with
      | returned value => cases ran
      | next middle =>
        refine rest.unset middle after ran id ?_
          (fun mem => undeclared (List.mem_append_right _ mem))
          fun part mem => unassigned part (List.mem_append_right _ mem)
        exact first.unset store middle inside id unset
          (fun mem => undeclared (List.mem_append_left _ mem))
          fun part mem => unassigned part (List.mem_append_left _ mem)

section Statement

variable {id : NodeId} {parts : List Node} {condition : Node} {block : List Node}

/-- A statement that does nothing is executed alike. -/
theorem alike_of_next {declared : List NodeId} {execution : Early → Store → Except EvalError Flow}
    (next : ∀ early, execution early = fun store => .ok (.next store)) :
    Alike scope declared parts (execution .replaced) (execution .kept) := by
  rw [next, next]
  refine alike_of_still (fun _ => rfl) fun store after ran => ?_
  cases ran
  rfl

theorem alike_declaration {name : String} {type? : Option Node} {initializer : Node} :
    Alike scope (Plain.declared (.mk id (.variableDecl name type? (some initializer)))) parts
      (execute .replaced scope limits (.mk id (.variableDecl name type? (some initializer))))
      (execute .kept scope limits (.mk id (.variableDecl name type? (some initializer)))) := by
  rw [Plain.declared]
  constructor
  · intro store clear
    rw [execute, execute, clear id List.mem_cons_self]
    rfl
  · intro store after ran other unset undeclared _
    rw [execute] at ran
    split at ran
    · obtain ⟨value, -, ran⟩ := bind_ok ran
      cases ran
      rw [store.set_of_ne value fun same => undeclared (List.mem_singleton.2 same), unset]
    · cases ran
      exact unset

theorem alike_branch (inner : Alike scope (block.flatMap Plain.declared) parts
    (executeBlock .replaced scope limits block) (executeBlock .kept scope limits block)) :
    Alike scope (Plain.declared (.mk id (.branch condition block))) parts
      (execute .replaced scope limits (.mk id (.branch condition block)))
      (execute .kept scope limits (.mk id (.branch condition block))) := by
  rw [Plain.declared]
  constructor
  · intro store clear
    rw [execute, execute]
    refine bind_congr fun value => bind_congr fun b => ?_
    cases b with
    | false => rfl
    | true => exact inner.same store clear
  · intro store after ran
    rw [execute] at ran
    obtain ⟨value, -, ran⟩ := bind_ok ran
    obtain ⟨b, -, ran⟩ := bind_ok ran
    cases b with
    | false =>
      cases ran
      exact fun _ unset _ _ => unset
    | true => exact inner.unset store after ran

theorem alike_loop (inner : Alike scope (block.flatMap Plain.declared) parts
    (executeBlock .replaced scope limits block) (executeBlock .kept scope limits block)) :
    Alike scope (Plain.declared (.mk id (.loop condition block))) parts
      (execute .replaced scope limits (.mk id (.loop condition block)))
      (execute .kept scope limits (.mk id (.loop condition block))) := by
  have subset : block.flatMap Plain.declared ⊆
      (Node.mk id (.loop condition block)).descendants.map Node.id := by
    intro declaration mem
    obtain ⟨statement, inside, declares⟩ := List.mem_flatMap.1 mem
    obtain ⟨node, below, rfl⟩ := Plain.exists_of_mem_declared declares
    exact List.mem_map_of_mem (Node.mem_descendants_iff.2
      ⟨statement, List.mem_cons_of_mem _ inside, below⟩)
  rw [Plain.declared]
  constructor
  · intro store clear
    rw [execute, execute]
    exact (alike_repeatLoop inner subset _).same store clear
  · intro store after ran
    rw [execute] at ran
    exact (alike_repeatLoop inner subset _).unset store after ran

theorem alike_return {expression? : Option Node} {declared : List NodeId} :
    Alike scope declared parts
      (execute .replaced scope limits (.mk id (.returnStatement expression?)))
      (execute .kept scope limits (.mk id (.returnStatement expression?))) := by
  cases expression? with
  | none => exact alike_of_still (fun _ => rfl) fun store after ran => by cases ran
  | some expression =>
    refine alike_of_still (fun store => by rw [execute, execute]) fun store after ran => ?_
    rw [execute] at ran
    obtain ⟨value, -, ran⟩ := bind_ok ran
    cases ran

/-- An assignment gives a value to nothing but its target. -/
theorem alike_expressionStatement {expression : Node} {declared : List NodeId} :
    Alike scope declared (Node.mk id (.expressionStatement expression)).preorder
      (execute .replaced scope limits (.mk id (.expressionStatement expression)))
      (execute .kept scope limits (.mk id (.expressionStatement expression))) := by
  by_cases assigns : ∃ target value, expression.kind = .assignment target value
  · obtain ⟨target, value, same⟩ := assigns
    obtain ⟨place, _⟩ := expression
    cases same
    refine ⟨fun store _ => by rw [execute, execute], fun store after ran other unset _
      unassigned => ?_⟩
    rw [execute] at ran
    obtain ⟨result, -, ran⟩ := bind_ok ran
    split at ran
    · rename_i declaration resolved
      cases ran
      have assigned : assigned? scope (.mk place (.assignment target value)) =
        some declaration := resolved
      have apart := unassigned _ (Node.mem_preorder_of_mem_children List.mem_cons_self
        (Node.self_mem_preorder _))
      rw [assigned] at apart
      rw [store.set_of_ne result fun same => apart (congrArg some same.symm), unset]
    · cases ran
  · have plain (target value : Node) : expression.kind ≠ .assignment target value :=
      fun same => assigns ⟨target, value, same⟩
    refine alike_of_still (fun store => ?_) fun store after ran => ?_
    · rw [execute_expressionStatement _ _ _ _ plain, execute_expressionStatement _ _ _ _ plain]
    · rw [execute_expressionStatement _ _ _ _ plain] at ran
      obtain ⟨result, -, ran⟩ := bind_ok ran
      cases ran
      rfl

end Statement

/-- The same of some children of a node. -/
theorem alike_children {outer : Node} (distinct : outer.Distinct)
    (ordered : Ordered scope outer.preorder) {block : List Node}
    (children : block.Sublist outer.children)
    (each : ∀ statement ∈ block, Alike scope (Plain.declared statement) statement.preorder
      (execute .replaced scope limits statement) (execute .kept scope limits statement)) :
    Alike scope (block.flatMap Plain.declared) outer.preorder
      (executeBlock .replaced scope limits block) (executeBlock .kept scope limits block) := by
  have part : (block.flatMap Node.preorder).Sublist outer.preorder := by
    rw [Node.preorder_eq]
    exact (children.flatMap Node.preorder).cons outer
  have nodup := part.map Node.id
  rw [List.map_flatMap] at nodup
  exact (alike_block each (distinct.sublist nodup) (ordered.sublist part)).mono part.subset

/-- Whether an early value is replaced or kept makes no difference if no assignment stands in front
of the declaration of its target. -/
theorem alike_execute {statement : Node} (distinct : statement.Distinct)
    (ordered : Ordered scope statement.preorder) :
    Alike scope (Plain.declared statement) statement.preorder
      (execute .replaced scope limits statement) (execute .kept scope limits statement) := by
  induction statement using Node.children_induction with
  | step statement ih =>
    obtain ⟨id, kind⟩ := statement
    -- The block inside of a branch or a loop.
    have block {condition : Node} {block : List Node}
        (children : kind.children = condition :: block) :
        Alike scope (block.flatMap Plain.declared) (Node.mk id kind).preorder
          (executeBlock .replaced scope limits block)
          (executeBlock .kept scope limits block) := by
      have part : block.Sublist (Node.mk id kind).children := by
        rw [Node.children, Node.kind_mk, children]
        exact List.sublist_cons_self _ _
      refine alike_children distinct ordered part fun statement mem =>
        ih statement (part.subset mem) (distinct.child (part.subset mem)) ?_
      exact ordered.sublist (Node.preorder_sublist (Node.mem_preorder_of_mem_children
        (part.subset mem) statement.self_mem_preorder))
    cases kind with
    | variableDecl name type? initializer? =>
      cases initializer? with
      | none => exact alike_of_next fun _ => rfl
      | some initializer => exact alike_declaration
    | branch condition statements => exact alike_branch (block rfl)
    | loop condition statements => exact alike_loop (block rfl)
    | returnStatement expression? => exact alike_return
    | expressionStatement expression => exact alike_expressionStatement
    | _ => exact alike_of_next fun _ => rfl

/-- Both readings execute the body of a function alike: its parameters are none of its variables. -/
theorem alike_body {function : Node} (distinct : function.Distinct)
    (ordered : Ordered scope function.preorder) :
    Alike scope ((Call.bodyOf function).flatMap Plain.declared) function.preorder
      (executeBlock .replaced scope limits (Call.bodyOf function))
      (executeBlock .kept scope limits (Call.bodyOf function)) := by
  have part : (Call.bodyOf function).Sublist function.children := by
    unfold Call.bodyOf
    split
    · rename_i name generics parameters returnType body kind
      rw [Node.children, kind]
      exact (List.sublist_cons_self _ _).trans (List.sublist_append_right _ _)
    · exact List.nil_sublist _
  exact alike_children distinct ordered part fun statement mem => alike_execute
    (distinct.child (part.subset mem)) (ordered.sublist (Node.preorder_sublist
      (Node.mem_preorder_of_mem_children (part.subset mem) statement.self_mem_preorder)))

end Early

end Strict

end DeclLang
