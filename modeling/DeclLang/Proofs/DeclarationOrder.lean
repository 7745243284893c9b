import Mathlib.Order.WellFounded
import DeclLang.Proofs.DeclaredTypes
import DeclLang.Proofs.Indexes
import DeclLang.Proofs.Reordering

/-!
# The order in which the types of declarations are worked out

**Input.**  A tree with its index.

**Order.**  The type of a declaration asks for the types of its parts: down from a function to its
parameters and from a record to its fields, up from an enumeration case to whatever is around it.
`Inference.rank` counts the nodes below a declaration that asks downwards; cases rank above all of
these, the deeper the higher.  A way up may thus turn into a way down, and only a case among the
parameters of a function turns a way down into a way up again.

**Results.**
* `Inference.rank_lt_of_asks`: without such cases, parts rank lower than what asks for them.
* `Inference.wellFounded_asks_iff`: asking comes to an end everywhere exactly without such cases.
* `Inference.keeps_writtenType_self`: while the type of a declaration is worked out, nothing else
  gives the declaration a type.
* `Inference.typeOfDeclaration_ends`: the type of every declaration is worked out within the limit
  of inference, which therefore makes no difference.
-/

namespace DeclLang

/-- What stands among the parameters of a function. -/
def Node.parameters (node : Node) : List Node :=
  match node.kind with
  | .functionDecl _ _ parameters .. => parameters
  | _ => []

/-- No enumeration case stands among the parameters of a function. -/
def Node.CaselessParameters (root : Node) : Prop :=
  ∀ node ∈ root.preorder, ∀ parameter ∈ node.parameters, ¬parameter.IsCase

instance (root : Node) : Decidable root.CaselessParameters :=
  inferInstanceAs (Decidable (∀ node ∈ root.preorder, ∀ parameter ∈ node.parameters,
    ¬parameter.IsCase))

namespace Inference

/-- The type of a declaration of the tree is put together from the type of its part. -/
def Asks (index : NodeIndex) (root part node : Node) : Prop :=
  node ∈ root.preorder ∧ part ∈ typedParts index node

/-- How far a declaration is from declarations that ask for nothing. -/
def rank (index : NodeIndex) (node : Node) : Nat :=
  match node.kind with
  | .enumerationCase .. => 2 * index.size - node.preorder.length
  | _ => node.preorder.length

section Rank

variable {index : NodeIndex} {root node part : Node}

theorem rank_of_isCase (isCase : node.IsCase) :
    rank index node = 2 * index.size - node.preorder.length := by
  obtain ⟨_, _, kind⟩ := isCase
  rw [rank, kind]

theorem rank_of_not_isCase (other : ¬node.IsCase) : rank index node = node.preorder.length := by
  obtain ⟨id, kind⟩ := node
  cases kind with
  | enumerationCase => exact absurd ⟨_, _, rfl⟩ other
  | _ => rfl

/-- What is no case has its parts below it. -/
theorem mem_children_of_typedParts (other : ¬node.IsCase) (mem : part ∈ typedParts index node) :
    part ∈ node.children := by
  obtain ⟨id, kind⟩ := node
  cases kind with
  | functionDecl name generics parameters =>
    have mem : part ∈ parameters := mem
    simp [Node.children, Kind.children, mem]
  | recordDecl => exact List.mem_append_right _ (List.mem_filter.1 mem).1
  | enumerationCase => exact absurd ⟨_, _, rfl⟩ other
  | _ => cases mem

/-- What is no case asks for no case, unless a function has one among its parameters. -/
theorem not_isCase_of_typedParts (caseless : root.CaselessParameters)
    (inside : node ∈ root.preorder) (other : ¬node.IsCase)
    (mem : part ∈ typedParts index node) : ¬part.IsCase := by
  obtain ⟨id, kind⟩ := node
  cases kind with
  | functionDecl => exact caseless _ inside part mem
  | recordDecl =>
    have slot := (List.mem_filter.1 mem).2
    rintro ⟨_, _, kind⟩
    rw [Node.fieldSlot?, kind] at slot
    cases slot
  | enumerationCase => exact absurd ⟨_, _, rfl⟩ other
  | _ => cases mem

variable (built : NodeIndex.build root = .ok index)

include built

theorem length_preorder_le_size (inside : node ∈ root.preorder) :
    node.preorder.length ≤ index.size := by
  obtain ⟨levels, place⟩ := Node.exists_at inside
  have within := place.length_add_le
  rw [NodeIndex.size_of_build built]
  omega

theorem rank_le (inside : node ∈ root.preorder) : rank index node ≤ 2 * index.size := by
  have small := length_preorder_le_size built inside
  by_cases isCase : node.IsCase
  · rw [rank_of_isCase isCase]
    omega
  · rw [rank_of_not_isCase isCase]
    omega

/-- Parts rank lower than what asks for them. -/
theorem rank_lt_of_asks (caseless : root.CaselessParameters) (asks : Asks index root part node) :
    rank index part < rank index node := by
  obtain ⟨inside, mem⟩ := asks
  by_cases isCase : node.IsCase
  · rw [rank_of_isCase isCase]
    obtain ⟨_, _, kind⟩ := isCase
    rw [typedParts, kind] at mem
    obtain ⟨above, among⟩ :=
      (NodeIndex.parent?_eq_some_iff_mem built inside).1 (Option.mem_toList.1 mem)
    have longer := Node.length_preorder_lt among
    have small := length_preorder_le_size built above
    -- On the way up the rank of cases decreases; what is no case ranks below all of them.
    by_cases isCase' : part.IsCase
    · rw [rank_of_isCase isCase']
      omega
    · rw [rank_of_not_isCase isCase']
      omega
  · rw [rank_of_not_isCase isCase,
      rank_of_not_isCase (not_isCase_of_typedParts caseless inside isCase mem)]
    exact Node.length_preorder_lt (mem_children_of_typedParts isCase mem)

/-- Asking comes to an end everywhere exactly if no case stands among the parameters of a
function. -/
theorem wellFounded_asks_iff : WellFounded (Asks index root) ↔ root.CaselessParameters := by
  constructor
  · intro wellFounded function inside parameter mem isCase
    obtain ⟨part, among⟩ :
        parameter ∈ typedParts index function ∧ parameter ∈ function.children := by
      obtain ⟨id, kind⟩ := function
      cases kind with
      | functionDecl name generics parameters =>
        have mem : parameter ∈ parameters := mem
        exact ⟨mem, by simp [Node.children, Kind.children, mem]⟩
      | _ => cases mem
    have down : Asks index root parameter function := ⟨inside, part⟩
    have up : Asks index root function parameter := by
      refine ⟨Node.mem_preorder_trans inside
        (Node.mem_preorder_of_mem_children among parameter.self_mem_preorder), ?_⟩
      obtain ⟨_, _, kind'⟩ := isCase
      rw [typedParts, kind', NodeIndex.parent?_of_mem built inside among]
      exact List.mem_singleton_self _
    exact wellFounded.asymmetric _ _ down up
  · intro caseless
    exact Subrelation.wf (rank_lt_of_asks built caseless) (measure (rank index)).wf

end Rank

section Untouched

variable {environment : Environment} {root node target : Node}
  (built : NodeIndex.build root = .ok environment.index) (distinct : root.Distinct)
  (caseless : root.CaselessParameters)

include built distinct caseless

/-- Working out the type of a declaration gives no type to what ranks higher. -/
theorem keeps_declarationType_of_rank_lt (targetInside : target ∈ root.preorder) (steps : Nat)
    (inside : node ∈ root.preorder)
    (higher : rank environment.index node < rank environment.index target) :
    Keeps (fun declarations => declarations[target.id]? = none)
      (declarationType environment steps node) := by
  induction steps generalizing node with
  | zero =>
    rw [declarationType]
    exact Keeps.bind (keeps_modify fun _ => rfl) fun _ => keeps_fresh
  | succ steps ih =>
    rw [declarationType_succ]
    refine keeps_get.bind fun state => ?_
    split
    · exact keeps_pure _
    · refine (keeps_writtenType fun part mem => ?_).bind fun type => ?_
      · exact ih (mem_preorder_of_mem_typedParts built inside mem)
          ((rank_lt_of_asks built caseless ⟨inside, mem⟩).trans higher)
      · refine Keeps.bind (fun state kept => ?_) fun _ => keeps_pure _
        refine (Std.TreeMap.getElem?_insert (a := target.id)).trans ?_
        rw [if_neg, kept]
        intro same
        rw [Nat.compare_eq_eq] at same
        obtain rfl := Node.eq_of_id_eq distinct inside targetInside same
        exact Nat.lt_irrefl _ higher

/-- While the type of a declaration is worked out, nothing else gives the declaration a type. -/
theorem keeps_writtenType_self (steps : Nat) (inside : node ∈ root.preorder) :
    Keeps (fun declarations => declarations[node.id]? = none)
      (writtenType environment steps node) :=
  keeps_writtenType fun _ mem => keeps_declarationType_of_rank_lt built distinct caseless inside
    steps (mem_preorder_of_mem_typedParts built inside mem)
    (rank_lt_of_asks built caseless ⟨inside, mem⟩)

end Untouched

section Limit

variable {environment : Environment} {root node : Node}

/-- The limit makes no difference to what a declaration is written with if it makes none to its
parts. -/
theorem writtenType_congr {steps more : Nat}
    (same : ∀ part ∈ typedParts environment.index node,
      declarationType environment more part = declarationType environment steps part) :
    writtenType environment more node = writtenType environment steps node := by
  have parts : labeledTypes environment more (typedParts environment.index node) =
      labeledTypes environment steps (typedParts environment.index node) :=
    mapM_congr_of_mem fun part mem => by rw [same part mem]
  obtain ⟨id, kind⟩ := node
  cases kind with
  | functionDecl | recordDecl => exact congrArg (· >>= _) parts
  | enumerationCase name values =>
    refine congrArg (· >>= _) ?_
    refine congrArg (Option.getD · fresh) (Option.map_congr fun parent found => ?_)
    exact same parent (Option.mem_toList.2 found)
  | variableDecl name ascription? => cases ascription? <;> rfl
  | _ => rfl

variable (built : NodeIndex.build root = .ok environment.index)
  (caseless : root.CaselessParameters)

include built caseless

/-- A limit above the rank of the declaration makes no difference. -/
theorem declarationType_eq_of_rank_lt {steps more : Nat} (inside : node ∈ root.preorder)
    (enough : rank environment.index node < steps)
    (enoughMore : rank environment.index node < more) :
    declarationType environment more node = declarationType environment steps node := by
  induction steps generalizing node more with
  | zero => exact absurd enough (Nat.not_lt_zero _)
  | succ steps ih =>
    obtain ⟨more, rfl⟩ := Nat.exists_eq_succ_of_ne_zero (Nat.ne_zero_of_lt enoughMore)
    have written : writtenType environment more node = writtenType environment steps node := by
      refine writtenType_congr fun part mem => ?_
      have lower := rank_lt_of_asks built caseless ⟨inside, mem⟩
      exact ih (mem_preorder_of_mem_typedParts built inside mem) (by omega) (by omega)
    rw [declarationType_succ, declarationType_succ, written]

/-- Within a limit above its rank, no declaration is found to contain itself. -/
theorem brings_selfContained_declarationType (flag : Bool) {steps : Nat}
    (inside : node ∈ root.preorder) (enough : rank environment.index node < steps) :
    Brings (fun state => state.selfContained = flag) (declarationType environment steps node)
      fun _ => True := by
  induction steps generalizing node with
  | zero => exact absurd enough (Nat.not_lt_zero _)
  | succ steps ih =>
    have written : Brings (fun state => state.selfContained = flag)
        (writtenType environment steps node) fun _ => True := by
      refine brings_writtenType_of_fresh (fun _ same => ⟨same, trivial⟩) fun part mem => ?_
      have lower := rank_lt_of_asks built caseless ⟨inside, mem⟩
      exact ih (mem_preorder_of_mem_typedParts built inside mem) (by omega)
    intro state same
    cases ran : declarationType environment (steps + 1) node state with
    | mk type after =>
      rcases declarationType_cases ran with ⟨-, rfl⟩ | ⟨middle, worked, set⟩
      · exact ⟨same, trivial⟩
      · have kept := (written state same).1
        rw [worked] at kept
        cases set
        exact ⟨kept, trivial⟩

end Limit

/-- In a tree with distinct identities, in which no enumeration case stands among the parameters of
a function, asking for the types of parts comes to an end everywhere.  Working out the type of a
declaration therefore never uses up its steps, whatever stands around the declaration and whatever
was worked out before: more steps would lead to the same type and the same state, and no declaration
is found to contain itself. -/
theorem typeOfDeclaration_ends (root : Node) (distinct : root.Distinct)
    (caseless : root.CaselessParameters) :
    (∃ index, NodeIndex.build root = .ok index) ∧
    ∀ index, NodeIndex.build root = .ok index →
      WellFounded (Asks index root) ∧
      ∀ (scope : Scope), ∀ node ∈ root.preorder, ∀ state : State,
        (∀ steps, 2 * index.size < steps →
          declarationType { scope, index } steps node state =
            typeOfDeclaration { scope, index } node state) ∧
        (typeOfDeclaration { scope, index } node state).2.selfContained = state.selfContained := by
  refine ⟨NodeIndex.build_ok distinct, fun index built => ⟨?_, fun scope node inside state => ?_⟩⟩
  · exact (wellFounded_asks_iff built).2 caseless
  · have within : rank index node ≤ 2 * index.size := rank_le built inside
    have built : NodeIndex.build root = .ok (Environment.index { scope, index }) := built
    constructor
    · intro steps enough
      exact congrFun (declarationType_eq_of_rank_lt built caseless inside (Nat.lt_succ_of_le within)
        (Nat.lt_of_le_of_lt within enough)) state
    · exact (brings_selfContained_declarationType built caseless state.selfContained inside
        (Nat.lt_succ_of_le within) state rfl).1

/-- A case within a case in the body of a function that takes a record, numbered in preorder. -/
def upAndDown : Node :=
  .mk 0 (.program [.mk 1 (.functionDecl "outer" []
    [.mk 2 (.recordDecl "Slot" [] [.mk 3 (.variableDecl "content" none none)])]
    (.mk 4 (.typeName "Unit" []))
    [.mk 5 (.enumerationCase "lone" [.mk 6 (.enumerationCase "nested" [])])])])

/-- The type of the inner case leads up to the function and down to the field of the record. -/
theorem typeOfDeclaration_ends_upAndDown :
    upAndDown.Distinct ∧ upAndDown.CaselessParameters ∧
    ∃ index, NodeIndex.build upAndDown = .ok index ∧ ∀ (scope : Scope) (state : State),
      (typeOfDeclaration { scope, index } (.mk 6 (.enumerationCase "nested" []))
        state).2.selfContained = state.selfContained := by
  have distinct : upAndDown.Distinct := by
    have identities : upAndDown.identities = [0, 1, 2, 3, 4, 5, 6] := by cbv
    rw [Node.Distinct, identities]
    decide
  have caseless : upAndDown.CaselessParameters := by decide +kernel
  have inside : Node.mk 6 (.enumerationCase "nested" []) ∈ upAndDown.preorder := by
    simp [upAndDown, Node.preorder_eq, Node.descendants, Node.children, Kind.children]
  obtain ⟨⟨index, built⟩, ends⟩ := typeOfDeclaration_ends upAndDown distinct caseless
  exact ⟨distinct, caseless, index, built, fun scope state =>
    ((ends index built).2 scope _ inside state).2⟩

end Inference

end DeclLang
