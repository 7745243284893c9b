import DeclLang.Proofs.ParameterTypes
import DeclLang.Proofs.DeclaredTypes
import DeclLang.Proofs.Indexes
import DeclLang.Proofs.Reordering

/-!
# Tidy trees

**Input.**  A tree in which declarations stand where they belong, as they do in rearranged trees
(`Rearranged.tidy`).

**Results.**
* `reached_of_declares`: inference comes to every declaration.
* `shallow_of_tidy`: the types of the parts of declarations do not lead on.
* `enumeration_of_case`: enumeration cases belong to enumerations that inference comes to.
-/

namespace DeclLang

open Inference

/-- The parts of the node stand where they belong: there are no functions, records or cases among
the parameters of a function, records have no fields, enumeration cases belong to enumerations, and
nothing is declared where inference does not go. -/
structure Node.Tidy (node : Node) : Prop where
  parameters : ∀ name generics parameters result body,
    node.kind = .functionDecl name generics parameters result body →
      ∀ parameter ∈ parameters, isComposed parameter = false
  fieldless : ∀ name generics declarations, node.kind = .recordDecl name generics declarations →
    ∀ child ∈ declarations, child.fieldSlot? = none
  cases : ∀ child ∈ node.children, child.IsCase → node.IsEnumeration
  passed : passesOver node = true → ∀ child ∈ node.children, child.Silent

namespace Node

variable {node : Node}

theorem not_isCase_of_declares (silent : node.declares = false) : ¬node.IsCase := by
  rintro ⟨_, _, kind⟩
  rw [declares, kind] at silent
  cases silent

theorem fieldSlot?_of_declares (silent : node.declares = false) : node.fieldSlot? = none := by
  obtain ⟨id, kind⟩ := node
  cases kind <;> first | rfl | cases silent

theorem isComposed_of_declares (silent : node.declares = false) : isComposed node = false := by
  obtain ⟨id, kind⟩ := node
  cases kind <;> first | rfl | cases silent

/-- Where nothing is declared, everything is tidy. -/
theorem Silent.tidy (silent : node.Silent) : node.Tidy := by
  have own := silent node node.self_mem_preorder
  refine ⟨fun _ _ _ _ _ kind => ?_, fun _ _ _ kind => ?_, fun child mem isCase => ?_,
    fun _ child mem => silent.child mem⟩
  · rw [declares, kind] at own
    cases own
  · rw [declares, kind] at own
    cases own
  · exact absurd isCase
      (not_isCase_of_declares (silent.child mem child child.self_mem_preorder))

theorem IsOperand.tidy (operand : node.IsOperand) : ∀ inner ∈ node.preorder, inner.Tidy :=
  fun _ mem => Silent.tidy fun other below =>
    (operand other (mem_preorder_trans mem below)).1

theorem Tidy.preorder (own : node.Tidy)
    (below : ∀ child ∈ node.children, ∀ inner ∈ child.preorder, inner.Tidy) :
    ∀ inner ∈ node.preorder, inner.Tidy := by
  intro inner mem
  rcases mem_preorder_iff.1 mem with rfl | ⟨child, among, deeper⟩
  · exact own
  · exact below child among inner deeper

/-- A node is tidy if inference goes below it, and it is neither a function nor a record. -/
theorem Tidy.visited (plain : ¬node.IsFunction) (fieldless : ¬node.IsRecord)
    (visited : passesOver node = false) (cases : ∀ child ∈ node.children, child.IsCase →
      node.IsEnumeration) : node.Tidy where
  parameters _ _ _ _ _ kind := absurd ⟨_, _, _, _, _, kind⟩ plain
  fieldless _ _ _ kind := absurd ⟨_, _, _, kind⟩ fieldless
  cases := cases
  passed passes := absurd (visited.symm.trans passes) Bool.false_ne_true

/-- A parameter or a case below which nothing is declared is tidy. -/
theorem tidy_of_member (member : node.IsParameter ∨ node.IsCase)
    (operands : ∀ operand ∈ node.children, operand.IsOperand) :
    ∀ inner ∈ node.preorder, inner.Tidy := by
  refine Tidy.preorder ?_ fun child mem => (operands child mem).tidy
  refine ⟨fun _ _ _ _ _ kind => ?_, fun _ _ _ kind => ?_, fun child mem isCase => ?_,
    fun _ child mem => (operands child mem).silent⟩
  · rcases member with ⟨_, _, _, same⟩ | ⟨_, _, same⟩ <;> cases kind.symm.trans same
  · rcases member with ⟨_, _, _, same⟩ | ⟨_, _, same⟩ <;> cases kind.symm.trans same
  · exact absurd isCase (not_isCase_of_declares
      (operands child mem child child.self_mem_preorder).1)

end Node

namespace Rearranged

variable {place : Surroundings} {left right : Node}

/-- There are no enumeration cases where declarations or statements stand. -/
theorem not_isCase (h : Rearranged place left right) : ¬left.IsCase := by
  rintro ⟨_, _, kind⟩
  cases h with
  | operand silent =>
    exact Node.not_isCase_of_declares (silent _ left.self_mem_preorder).1 ⟨_, _, kind⟩
  | _ => cases kind

/-- There are no fields in records. -/
theorem fieldSlot?_eq_none (h : Rearranged place left right) (inRecord : place.inRecord = true) :
    left.fieldSlot? = none := by
  cases h with
  | operand silent => exact Node.fieldSlot?_of_declares (silent _ left.self_mem_preorder).1
  | variableDecl outside => cases inRecord.symm.trans outside
  | _ => rfl

/-- Rearranged trees are tidy. -/
theorem tidy (h : Rearranged place left right) : ∀ node ∈ left.preorder, node.Tidy := by
  have operandCase {node : Node} (operand : node.IsOperand) : ¬node.IsCase :=
    Node.not_isCase_of_declares (operand node node.self_mem_preorder).1
  induction h with
  | operand silent => exact silent.tidy
  | program setting parts order ih | namespaceDecl named parts order ih =>
    refine Node.Tidy.preorder (.visited (by rintro ⟨_, _, _, _, _, ⟨⟩⟩)
      (by rintro ⟨_, _, _, ⟨⟩⟩) rfl fun child mem isCase => ?_) fun child mem => ?_
    all_goals obtain ⟨pair, among, rfl⟩ := List.mem_map.1 mem
    · exact absurd isCase (parts pair among).not_isCase
    · exact ih pair among
  | @functionDecl place id name generics parameters returnType pairs setting operands receives parts
      ih =>
    -- Every child is an operand, stands in the place of a parameter, or is a statement.
    have children {child : Node} (mem : child ∈ generics ++ parameters ++
        returnType :: pairs.map Prod.fst) : child.IsOperand ∨ child ∈ parameters ∨
          ∃ pair ∈ pairs, child = pair.1 := by
      rcases List.mem_append.1 mem with mem | mem
      · rcases List.mem_append.1 mem with mem | mem
        · exact .inl (operands child (List.mem_cons_of_mem _ mem))
        · exact .inr (.inl mem)
      · rcases List.mem_cons.1 mem with rfl | mem
        · exact .inl (operands _ List.mem_cons_self)
        · obtain ⟨pair, among, rfl⟩ := List.mem_map.1 mem
          exact .inr (.inr ⟨pair, among, rfl⟩)
    refine Node.Tidy.preorder ⟨?_, fun _ _ _ kind => (by cases kind), fun child mem isCase => ?_,
      fun passes => (by cases passes)⟩ fun child mem => ?_
    · rintro _ _ _ _ _ ⟨⟩ parameter mem
      rcases receives parameter mem with operand | ⟨⟨_, _, _, kind⟩, -⟩
      · exact Node.isComposed_of_declares (operand _ parameter.self_mem_preorder).1
      · rw [isComposed, kind]
    · rcases children mem with operand | mem | ⟨pair, among, rfl⟩
      · exact absurd isCase (operandCase operand)
      · rcases receives child mem with operand | ⟨⟨_, _, _, kind⟩, -⟩
        · exact absurd isCase (operandCase operand)
        · obtain ⟨_, _, same⟩ := isCase
          cases kind.symm.trans same
      · exact absurd isCase (parts pair among).not_isCase
    · rcases children mem with operand | mem | ⟨pair, among, rfl⟩
      · exact operand.tidy
      · rcases receives child mem with operand | ⟨isParameter, below⟩
        · exact operand.tidy
        · exact Node.tidy_of_member (.inl isParameter) below
      · exact ih pair among
  | @recordDecl place id name generics pairs operands parts ih =>
    refine Node.Tidy.preorder ⟨fun _ _ _ _ _ kind => (by cases kind), ?_,
      fun child mem isCase => ?_, fun passes => (by cases passes)⟩ fun child mem => ?_
    · rintro _ _ _ ⟨⟩ child mem
      obtain ⟨pair, among, rfl⟩ := List.mem_map.1 mem
      exact (parts pair among).fieldSlot?_eq_none rfl
    all_goals rcases List.mem_append.1 mem with mem | mem
    · exact absurd isCase (operandCase (operands child mem))
    · obtain ⟨pair, among, rfl⟩ := List.mem_map.1 mem
      exact absurd isCase (parts pair among).not_isCase
    · exact (operands child mem).tidy
    · obtain ⟨pair, among, rfl⟩ := List.mem_map.1 mem
      exact ih pair among
  | @enumerationDecl place id name generics cases operands members =>
    refine Node.Tidy.preorder (.visited (by rintro ⟨_, _, _, _, _, ⟨⟩⟩)
      (by rintro ⟨_, _, _, ⟨⟩⟩) rfl fun _ _ _ => ⟨_, _, _, rfl⟩) fun child mem => ?_
    rcases List.mem_append.1 mem with mem | mem
    · exact (operands child mem).tidy
    · rcases members child mem with operand | ⟨isCase, below⟩
      · exact operand.tidy
      · exact Node.tidy_of_member (.inr isCase) below
  | variableDecl outside operands =>
    refine Node.Tidy.preorder (.visited (by rintro ⟨_, _, _, _, _, ⟨⟩⟩)
      (by rintro ⟨_, _, _, ⟨⟩⟩) rfl fun child mem isCase => ?_) fun child mem => ?_
    · exact absurd isCase (operandCase (operands child mem))
    · exact (operands child mem).tidy
  | branch operand parts ih | loop operand parts ih =>
    refine Node.Tidy.preorder (.visited (by rintro ⟨_, _, _, _, _, ⟨⟩⟩)
      (by rintro ⟨_, _, _, ⟨⟩⟩) rfl fun child mem isCase => ?_) fun child mem => ?_
    all_goals rcases List.mem_cons.1 mem with rfl | mem
    · exact absurd isCase (operandCase operand)
    · obtain ⟨pair, among, rfl⟩ := List.mem_map.1 mem
      exact absurd isCase (parts pair among).not_isCase
    · exact operand.tidy
    · obtain ⟨pair, among, rfl⟩ := List.mem_map.1 mem
      exact ih pair among

end Rearranged

namespace Inference

section Tidy

variable {root : Node} {index : NodeIndex} (tidy : ∀ node ∈ root.preorder, node.Tidy)

include tidy

/-- Inference comes to every declaration. -/
theorem reached_of_declares {node : Node} (inside : node ∈ root.preorder)
    (declares : node.declares = true) (outer? : Option Node) :
    ∃ function?, (function?, node) ∈ reached outer? root := by
  induction root using Node.children_induction generalizing outer? with
  | step root ih =>
    rcases Node.mem_preorder_iff.1 inside with rfl | ⟨child, among, below⟩
    · exact ⟨outer?, self_mem_reached outer? node⟩
    · have visits : visited root = root.children := by
        unfold visited
        split
        · rename_i passes
          have silent := (tidy root root.self_mem_preorder).passed passes child among node below
          rw [declares] at silent
          cases silent
        · rfl
      obtain ⟨function?, mem⟩ := ih child among
        (fun other deeper => tidy other (Node.mem_preorder_of_mem_children among deeper)) below
        (functionBelow outer? root)
      exact ⟨function?, mem_reached_iff.2 (.inr ⟨child, visits ▸ among, mem⟩)⟩

variable (top : ¬root.IsCase)

include top

/-- Enumeration cases belong to enumerations. -/
theorem enumeration_of_case {node : Node} (inside : node ∈ root.preorder) (isCase : node.IsCase) :
    ∃ parent ∈ root.preorder, node ∈ parent.children ∧ parent.IsEnumeration := by
  rcases Node.mem_preorder_iff.1 inside with rfl | ⟨child, among, below⟩
  · exact absurd isCase top
  · obtain ⟨parent, above, mem⟩ :=
      Node.exists_parent (Node.mem_descendants_iff.2 ⟨child, among, below⟩)
    exact ⟨parent, above, mem, (tidy parent above).cases node mem isCase⟩

/-- The types of the parts of declarations do not lead on. -/
theorem shallow_of_tidy (built : NodeIndex.build root = .ok index) : Shallow index root := by
  intro node inside part mem
  have own := tidy node inside
  obtain ⟨id, kind⟩ := node
  cases kind with
  | functionDecl name generics parameters result body =>
    refine ⟨Node.mem_preorder_trans inside (Node.mem_preorder_of_mem_children ?_
      part.self_mem_preorder), own.parameters name generics parameters result body rfl part mem⟩
    exact List.mem_append_left _ (List.mem_append_right _ mem)
  | recordDecl name generics declarations =>
    obtain ⟨among, slot⟩ := List.mem_filter.1 mem
    rw [own.fieldless name generics declarations rfl part among] at slot
    cases slot
  | enumerationCase name values =>
    obtain ⟨parent, above, among, _, _, _, kind⟩ :=
      enumeration_of_case tidy top inside ⟨name, values, rfl⟩
    have same : part = parent := Option.some.inj
      ((Option.mem_toList.1 mem).symm.trans (NodeIndex.parent?_of_mem built above among))
    rw [same]
    exact ⟨above, by rw [isComposed, kind]⟩
  | _ => cases mem

end Tidy

/-- Parts that are not put together from other declarations are not functions. -/
theorem Shallow.plain {root : Node} {index : NodeIndex} (shallow : Shallow index root) :
    Plain index root := by
  have other {part : Node} (simple : isComposed part = false) : ¬part.IsFunction := by
    rintro ⟨_, _, _, _, _, kind⟩
    rw [isComposed, kind] at simple
    cases simple
  constructor
  · intro node inside name generics parameters result body kind parameter mem
    refine other (shallow node inside parameter ?_).2
    rw [typedParts, kind]
    exact mem
  · intro node inside name values kind parent above
    refine other (shallow node inside parent ?_).2
    rw [typedParts, kind]
    exact Option.mem_toList.2 above

end Inference

end DeclLang
