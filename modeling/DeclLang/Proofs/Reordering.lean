import DeclLang.Proofs.CompilationOutcomes
import DeclLang.Proofs.LexicalContainment

/-!
# Reordered trees

**Input.**  Two trees that differ only in the order in which the declarations of their programs and
namespaces come (`Node.Reordered`), the first of them orderly (`Node.Orderly`): declarations stand
only where declarations or statements belong, and records have no fields.

**Relation.**  `Rearranged` relates two such trees at a place.  It says what the place of a node
allows, and leaves the parts in which no declaration can stand as they are.

**Results.**
* `Node.Reordered.rearranged`: reordered trees, the first of them orderly, are rearranged.
* `Rearranged.symm`, `Rearranged.identities_perm`, `Rearranged.bindings_perm`: what a rearranged
  tree has in common with the tree itself.
-/

namespace DeclLang

namespace Kind

variable {α β : Type}

/-- The layer with other subtrees in place of its own. -/
def map (f : α → β) : Kind α → Kind β
  | program declarations => program (declarations.map f)
  | namespaceDecl name declarations => namespaceDecl name (declarations.map f)
  | importDecl name => importDecl name
  | functionDecl name generics parameters returnType body =>
    functionDecl name (generics.map f) (parameters.map f) (f returnType) (body.map f)
  | parameter name type default? => parameter name (f type) (default?.map f)
  | genericParameter name => genericParameter name
  | recordDecl name generics declarations =>
    recordDecl name (generics.map f) (declarations.map f)
  | enumerationDecl name generics cases => enumerationDecl name (generics.map f) (cases.map f)
  | enumerationCase name values => enumerationCase name (values.map f)
  | variableDecl name type? initializer? => variableDecl name (type?.map f) (initializer?.map f)
  | branch condition block => branch (f condition) (block.map f)
  | loop condition block => loop (f condition) (block.map f)
  | returnStatement expression? => returnStatement (expression?.map f)
  | expressionStatement expression => expressionStatement (f expression)
  | identifier name => identifier name
  | member object name => member (f object) name
  | call callee arguments => call (f callee) (arguments.map f)
  | argument label? expression => argument label? (f expression)
  | placeholder => placeholder
  | binary operator left right => binary operator (f left) (f right)
  | assignment target value => assignment (f target) (f value)
  | literal value => literal value
  | array elements => array (elements.map f)
  | typeName name arguments => typeName name (arguments.map f)
  | functionType arguments returnType => functionType (arguments.map f) (f returnType)

private theorem toList_map (f : α → β) (x? : Option α) : (x?.map f).toList = x?.toList.map f := by
  cases x? <;> rfl

@[simp] theorem children_map (f : α → β) (kind : Kind α) :
    (kind.map f).children = kind.children.map f := by
  cases kind <;> simp [map, children, toList_map]

theorem map_congr {f g : α → β} {kind : Kind α} (h : ∀ part ∈ kind.children, f part = g part) :
    kind.map f = kind.map g := by
  have list {parts : List α} (sub : parts ⊆ kind.children) : parts.map f = parts.map g :=
    List.map_congr_left fun part mem => h part (sub mem)
  have option {part? : Option α} (sub : part?.toList ⊆ kind.children) :
      part?.map f = part?.map g := by
    cases part? with
    | none => rfl
    | some part => exact congrArg some (h part (sub (by simp)))
  cases kind <;> simp [map, children] at * <;> grind

/-- Two layers that differ at most in the order of the declarations of a program or a namespace. -/
inductive Permuted : Kind α → Kind α → Prop
  | refl (kind : Kind α) : Permuted kind kind
  | program {declarations others : List α} (order : declarations.Perm others) :
    Permuted (program declarations) (program others)
  | namespaceDecl (name : String) {declarations others : List α}
    (order : declarations.Perm others) :
    Permuted (namespaceDecl name declarations) (namespaceDecl name others)

end Kind

namespace Node

/-- The trees have the same nodes; only the declarations of programs and namespaces may come in
another order.  A pair consists of corresponding subtrees of the two. -/
inductive Reordered : Node → Node → Prop
  | mk (id : NodeId) {kind other : Kind (Node × Node)} (order : kind.Permuted other)
    (parts : ∀ pair ∈ kind.children, Reordered pair.1 pair.2) :
    Reordered (.mk id (kind.map Prod.fst)) (.mk id (other.map Prod.snd))

/-- The node is the case of an enumeration. -/
def IsCase (node : Node) : Prop :=
  ∃ name values, node.kind = .enumerationCase name values

/-- The node can stand among declarations or statements: it is neither a parameter nor the case of
an enumeration. -/
def IsItem (node : Node) : Prop :=
  ¬node.IsParameter ∧ ¬node.IsCase

/-- Declarations stand where declarations or statements belong, parameters among the parameters of
functions, and cases among the cases of enumerations; nothing is declared in other subtrees. -/
def DeclaresInPlace (node : Node) : Prop :=
  match node.kind with
  | .program declarations | .namespaceDecl _ declarations => ∀ item ∈ declarations, item.IsItem
  | .functionDecl _ generics parameters returnType body =>
    (∀ operand ∈ returnType :: generics, operand.Silent) ∧
      (∀ parameter ∈ parameters, parameter.IsParameter ∨ parameter.Silent) ∧
      ∀ item ∈ body, item.IsItem
  | .recordDecl _ generics declarations =>
    (∀ operand ∈ generics, operand.Silent) ∧ ∀ item ∈ declarations, item.IsItem
  | .enumerationDecl _ generics cases =>
    (∀ operand ∈ generics, operand.Silent) ∧ ∀ member ∈ cases, member.IsCase ∨ member.Silent
  | .branch condition block | .loop condition block =>
    condition.Silent ∧ ∀ item ∈ block, item.IsItem
  | kind => ∀ operand ∈ kind.children, operand.Silent

/-- The order of declarations does not show in what declarations bind: they stand in place, no
record has fields or functions, and namespaces and programs stand where their declarations have
paths. -/
structure Orderly (root : Node) : Prop where
  inPlace : ∀ node ∈ root.preorder, node.DeclaresInPlace
  /-- A program stands in programs and namespaces only. -/
  programs : ∀ node ∈ root.preorder, ∀ child ∈ node.children, child.IsProgram →
    node.IsProgram ∨ node.IsNamespace
  /-- There is no namespace in a branch or a loop. -/
  blocks : ∀ block ∈ root.preorder, block.IsBlock →
    ∀ inner ∈ block.preorder, ¬inner.IsNamespace
  /-- There is no variable in a record. -/
  fields : ∀ record ∈ root.preorder, record.IsRecord →
    ∀ inner ∈ record.preorder, inner.isVariable = false
  /-- No function is declared directly in a record. -/
  methods : ∀ record ∈ root.preorder, record.IsRecord →
    ∀ child ∈ record.children, ¬child.IsFunction

section Decidable

variable (node : Node)

/-- Whether a node is of some kind can be read off its outermost layer. -/
def decidableOfKind {P : Node → Prop} (test : Kind Node → Bool)
    (sound : ∀ id kind, P (.mk id kind) ↔ test kind = true) : Decidable (P node) :=
  decidable_of_iff (test node.kind = true) (by
    obtain ⟨id, kind⟩ := node
    exact (sound id kind).symm)

instance : Decidable node.IsProgram :=
  node.decidableOfKind (· matches .program _) fun _ kind => by cases kind <;> simp [IsProgram]

instance : Decidable node.IsNamespace :=
  node.decidableOfKind (· matches .namespaceDecl ..) fun _ kind => by
    cases kind <;> simp [IsNamespace]

instance : Decidable node.IsFunction :=
  node.decidableOfKind (· matches .functionDecl ..) fun _ kind => by
    cases kind <;> simp [IsFunction]

instance : Decidable node.IsParameter :=
  node.decidableOfKind (· matches .parameter ..) fun _ kind => by
    cases kind <;> simp [IsParameter]

instance : Decidable node.IsRecord :=
  node.decidableOfKind (· matches .recordDecl ..) fun _ kind => by cases kind <;> simp [IsRecord]

instance : Decidable node.IsCase :=
  node.decidableOfKind (· matches .enumerationCase ..) fun _ kind => by
    cases kind <;> simp [IsCase]

instance : Decidable node.IsBlock :=
  node.decidableOfKind (fun kind => kind matches .branch .. || kind matches .loop ..)
    fun _ kind => by cases kind <;> simp [IsBlock]

instance : Decidable node.IsItem :=
  inferInstanceAs (Decidable (¬node.IsParameter ∧ ¬node.IsCase))

instance : Decidable node.DeclaresInPlace := by
  obtain ⟨id, kind⟩ := node
  cases kind <;> dsimp only [DeclaresInPlace, kind_mk] <;> infer_instance

end Decidable

/-- Nothing is declared in the tree, and no program starts in it. -/
def IsOperand (node : Node) : Prop :=
  ∀ inner ∈ node.preorder, inner.declares = false ∧ ¬inner.IsProgram

end Node

/-- What the place of a node is like. -/
inductive Setting where
  /-- In a program or a namespace. -/
  | declarations
  /-- Directly in a record. -/
  | record
  /-- In the body of a function, in a branch or in a loop. -/
  | statements
  deriving DecidableEq

/-- The place of a node in an orderly tree: what it is like, whether declarations there have paths,
and whether it is in a record. -/
structure Surroundings where
  setting : Setting
  named : Bool
  inRecord : Bool

namespace Surroundings

/-- The place of the tree itself. -/
def outermost : Surroundings :=
  { setting := .declarations, named := true, inRecord := false }

def inNamespace (place : Surroundings) : Surroundings :=
  { place with setting := .declarations }

def inFunction (place : Surroundings) : Surroundings :=
  { place with setting := .statements }

def inBlock (place : Surroundings) : Surroundings :=
  { place with setting := .statements, named := false }

def inRecordDecl (place : Surroundings) : Surroundings :=
  { place with setting := .record, inRecord := true }

end Surroundings

/-- An orderly tree at a place, and the same tree with the declarations of programs and namespaces
in another order.  A pair consists of corresponding declarations or statements of the two. -/
inductive Rearranged : Surroundings → Node → Node → Prop
  | operand {place : Surroundings} {node : Node} (silent : node.IsOperand) :
    Rearranged place node node
  | program {place : Surroundings} {id : NodeId} {pairs others : List (Node × Node)}
    (setting : place.setting = .declarations)
    (parts : ∀ pair ∈ pairs, Rearranged place pair.1 pair.2) (order : pairs.Perm others) :
    Rearranged place (.mk id (.program (pairs.map Prod.fst)))
      (.mk id (.program (others.map Prod.snd)))
  | namespaceDecl {place : Surroundings} {id : NodeId} {name : String}
    {pairs others : List (Node × Node)} (named : place.named = true)
    (parts : ∀ pair ∈ pairs, Rearranged place.inNamespace pair.1 pair.2)
    (order : pairs.Perm others) :
    Rearranged place (.mk id (.namespaceDecl name (pairs.map Prod.fst)))
      (.mk id (.namespaceDecl name (others.map Prod.snd)))
  | functionDecl {place : Surroundings} {id : NodeId} {name : String}
    {generics parameters : List Node} {returnType : Node} {pairs : List (Node × Node)}
    (setting : place.setting ≠ .record)
    (operands : ∀ operand ∈ returnType :: generics, operand.IsOperand)
    (receives : ∀ parameter ∈ parameters, parameter.IsOperand ∨
      parameter.IsParameter ∧ ∀ operand ∈ parameter.children, operand.IsOperand)
    (parts : ∀ pair ∈ pairs, Rearranged place.inFunction pair.1 pair.2) :
    Rearranged place
      (.mk id (.functionDecl name generics parameters returnType (pairs.map Prod.fst)))
      (.mk id (.functionDecl name generics parameters returnType (pairs.map Prod.snd)))
  | recordDecl {place : Surroundings} {id : NodeId} {name : String} {generics : List Node}
    {pairs : List (Node × Node)} (operands : ∀ operand ∈ generics, operand.IsOperand)
    (parts : ∀ pair ∈ pairs, Rearranged place.inRecordDecl pair.1 pair.2) :
    Rearranged place (.mk id (.recordDecl name generics (pairs.map Prod.fst)))
      (.mk id (.recordDecl name generics (pairs.map Prod.snd)))
  | enumerationDecl {place : Surroundings} {id : NodeId} {name : String}
    {generics cases : List Node} (operands : ∀ operand ∈ generics, operand.IsOperand)
    (members : ∀ member ∈ cases, member.IsOperand ∨
      member.IsCase ∧ ∀ operand ∈ member.children, operand.IsOperand) :
    Rearranged place (.mk id (.enumerationDecl name generics cases))
      (.mk id (.enumerationDecl name generics cases))
  | variableDecl {place : Surroundings} {id : NodeId} {name : String}
    {type? initializer? : Option Node} (outside : place.inRecord = false)
    (operands : ∀ operand ∈ type?.toList ++ initializer?.toList, operand.IsOperand) :
    Rearranged place (.mk id (.variableDecl name type? initializer?))
      (.mk id (.variableDecl name type? initializer?))
  | branch {place : Surroundings} {id : NodeId} {condition : Node} {pairs : List (Node × Node)}
    (operand : condition.IsOperand)
    (parts : ∀ pair ∈ pairs, Rearranged place.inBlock pair.1 pair.2) :
    Rearranged place (.mk id (.branch condition (pairs.map Prod.fst)))
      (.mk id (.branch condition (pairs.map Prod.snd)))
  | loop {place : Surroundings} {id : NodeId} {condition : Node} {pairs : List (Node × Node)}
    (operand : condition.IsOperand)
    (parts : ∀ pair ∈ pairs, Rearranged place.inBlock pair.1 pair.2) :
    Rearranged place (.mk id (.loop condition (pairs.map Prod.fst)))
      (.mk id (.loop condition (pairs.map Prod.snd)))

namespace Node

section Orderly

variable {root node other : Node}

/-- A tree is itself one of its reorderings. -/
theorem Reordered.refl (node : Node) : Reordered node node := by
  induction node using children_induction with
  | step node ih =>
    obtain ⟨id, kind⟩ := node
    have twice (f : Node × Node → Node) (same : ∀ child : Node, f (child, child) = child) :
        (kind.map fun child => (child, child)).map f = kind := by
      cases kind <;> simp [Kind.map, same, Function.comp_def]
    have step := Reordered.mk id (.refl (kind.map fun child => (child, child))) (by
      simp only [Kind.children_map, List.forall_mem_map]
      exact ih)
    rwa [twice Prod.fst fun _ => rfl, twice Prod.snd fun _ => rfl] at step

/-- A node whose children stay as they are stays as it is, unless it is a program or a
namespace. -/
theorem Reordered.eq_of_children (h : Reordered node other) (noProgram : ¬node.IsProgram)
    (noNamespace : ¬node.IsNamespace)
    (same : ∀ child ∈ node.children, ∀ next, Reordered child next → child = next) :
    node = other := by
  obtain @⟨id, kind, others, order, parts⟩ := h
  cases order with
  | refl =>
    have equal : kind.map Prod.fst = kind.map Prod.snd := Kind.map_congr fun pair mem =>
      same pair.1 (by simpa [children] using ⟨pair.2, mem⟩) pair.2 (parts pair mem)
    rw [equal]
  | program => exact absurd ⟨_, rfl⟩ noProgram
  | namespaceDecl => exact absurd ⟨_, _, rfl⟩ noNamespace

theorem IsOperand.child (h : node.IsOperand) {child : Node} (mem : child ∈ node.children) :
    child.IsOperand :=
  fun inner below => h inner (mem_preorder_of_mem_children mem below)

theorem IsOperand.silent (h : node.IsOperand) : node.Silent :=
  fun inner mem => (h inner mem).1

theorem IsNamespace.declares_eq (h : node.IsNamespace) : node.declares = true := by
  obtain ⟨name, declarations, kind⟩ := h
  rw [declares, kind]
  rfl

/-- Where nothing is declared and no program starts, there is nothing to reorder. -/
theorem IsOperand.eq_of_reordered (silent : node.IsOperand) (h : Reordered node other) :
    node = other := by
  induction node using children_induction generalizing other with
  | step node ih =>
    refine h.eq_of_children (silent node node.self_mem_preorder).2 (fun isNamespace => ?_)
      fun child mem next reordered => ih child mem (silent.child mem) reordered
    have declares := (silent node node.self_mem_preorder).1
    rw [isNamespace.declares_eq] at declares
    cases declares

/-- Nothing starts where nothing is declared, unless it is a program itself. -/
theorem Orderly.isOperand (orderly : root.Orderly) (mem : node ∈ root.preorder)
    (silent : node.Silent) (noProgram : ¬node.IsProgram) : node.IsOperand := by
  induction node using children_induction with
  | step node ih =>
    intro inner below
    rcases mem_preorder_iff.1 below with rfl | ⟨child, among, deeper⟩
    · exact ⟨silent _ below, noProgram⟩
    · refine ih child among (mem_preorder_trans mem
        (mem_preorder_of_mem_children among child.self_mem_preorder)) (silent.child among)
        (fun isProgram => ?_) inner deeper
      rcases orderly.programs node mem child among isProgram with again | isNamespace
      · exact noProgram again
      · have declares := silent node node.self_mem_preorder
        rw [isNamespace.declares_eq] at declares
        cases declares

/-- Below parameters and cases nothing is declared. -/
theorem Orderly.operands_of_member (orderly : root.Orderly) (mem : node ∈ root.preorder)
    (member : node.IsParameter ∨ node.IsCase) : ∀ operand ∈ node.children, operand.IsOperand := by
  intro operand among
  have inside := mem_preorder_trans mem
    (mem_preorder_of_mem_children among operand.self_mem_preorder)
  have inPlace := orderly.inPlace node mem
  have program := orderly.programs node mem operand among
  obtain ⟨id, kind⟩ := node
  rcases member with ⟨_, _, _, rfl⟩ | ⟨_, _, rfl⟩ <;>
  · refine orderly.isOperand inside (inPlace operand among) fun isProgram => ?_
    rcases program isProgram with ⟨_, same⟩ | ⟨_, _, same⟩ <;> cases same

/-- Parameters and cases below which nothing is declared stay as they are. -/
theorem Reordered.eq_of_member (h : Reordered node other)
    (member : node.IsParameter ∨ node.IsCase)
    (operands : ∀ operand ∈ node.children, operand.IsOperand) : node = other := by
  refine h.eq_of_children ?_ ?_ fun child mem _ reordered =>
    (operands child mem).eq_of_reordered reordered
  · rintro ⟨_, same⟩
    rcases member with ⟨_, _, _, kind⟩ | ⟨_, _, kind⟩ <;> cases kind.symm.trans same
  · rintro ⟨_, _, same⟩
    rcases member with ⟨_, _, _, kind⟩ | ⟨_, _, kind⟩ <;> cases kind.symm.trans same

end Orderly

end Node

/-- The node can stand at the place. -/
structure Surroundings.Allows (place : Surroundings) (node : Node) : Prop where
  item : node.IsItem
  program : node.IsProgram → place.setting = .declarations
  function : node.IsFunction → place.setting ≠ .record
  named : place.named = false → ∀ inner ∈ node.preorder, ¬inner.IsNamespace
  fields : place.inRecord = true → ∀ inner ∈ node.preorder, inner.isVariable = false

/-- What is kept out of a place is kept out of the places below it. -/
theorem Surroundings.Allows.child {place : Surroundings} {node child : Node} {setting : Setting}
    (allows : place.Allows node) (mem : child ∈ node.children) (item : child.IsItem)
    (program : child.IsProgram → setting = .declarations)
    (function : child.IsFunction → setting ≠ .record) :
    ({ place with setting } : Surroundings).Allows child where
  item := item
  program := program
  function := function
  named unnamed inner below := allows.named unnamed inner
    (Node.mem_preorder_of_mem_children mem below)
  fields inside inner below := allows.fields inside inner
    (Node.mem_preorder_of_mem_children mem below)

/-- A node of an orderly tree at a place that allows it, paired with a reordered one part by part;
the parts are rearranged wherever they can stand. -/
structure Paired (root : Node) (place : Surroundings) (id : NodeId) (kind : Kind (Node × Node)) :
    Prop where
  orderly : root.Orderly
  mem : Node.mk id (kind.map Prod.fst) ∈ root.preorder
  allows : place.Allows (Node.mk id (kind.map Prod.fst))
  reordered : ∀ pair ∈ kind.children, Node.Reordered pair.1 pair.2
  rearranged : ∀ pair ∈ kind.children, ∀ place : Surroundings, pair.1 ∈ root.preorder →
    place.Allows pair.1 → Rearranged place pair.1 pair.2

namespace Paired

variable {root : Node} {place : Surroundings} {id : NodeId}

section Parts

variable {kind : Kind (Node × Node)}

theorem child {pair : Node × Node} (among : pair ∈ kind.children) :
    pair.1 ∈ (Node.mk id (kind.map Prod.fst)).children := by
  simpa [Node.children] using ⟨pair.2, among⟩

variable (paired : Paired root place id kind)

include paired

theorem inside {pair : Node × Node} (among : pair ∈ kind.children) : pair.1 ∈ root.preorder :=
  Node.mem_preorder_trans paired.mem
    (Node.mem_preorder_of_mem_children (child among) pair.1.self_mem_preorder)

theorem inPlace : (Node.mk id (kind.map Prod.fst)).DeclaresInPlace :=
  paired.orderly.inPlace _ paired.mem

/-- Only programs and namespaces contain programs. -/
theorem noProgram (program : ¬(Node.mk id (kind.map Prod.fst)).IsProgram)
    (space : ¬(Node.mk id (kind.map Prod.fst)).IsNamespace) :
    ∀ pair ∈ kind.children, ¬pair.1.IsProgram :=
  fun pair among isProgram =>
    (paired.orderly.programs _ paired.mem pair.1 (child among) isProgram).elim program space

variable (noProgram : ∀ pair ∈ kind.children, ¬pair.1.IsProgram)

include noProgram

/-- A part in which nothing is declared is not reordered. -/
theorem operand {pair : Node × Node} (among : pair ∈ kind.children) (silent : pair.1.Silent) :
    pair.1.IsOperand ∧ pair.2 = pair.1 := by
  have operand := paired.orderly.isOperand (paired.inside among) silent (noProgram pair among)
  exact ⟨operand, (operand.eq_of_reordered (paired.reordered pair among)).symm⟩

theorem operands {pairs : List (Node × Node)} (sub : pairs ⊆ kind.children)
    (silent : ∀ operand ∈ pairs.map Prod.fst, operand.Silent) :
    (∀ operand ∈ pairs.map Prod.fst, operand.IsOperand) ∧
      pairs.map Prod.snd = pairs.map Prod.fst := by
  have each (pair : Node × Node) (among : pair ∈ pairs) :=
    paired.operand noProgram (sub among) (silent _ (List.mem_map_of_mem among))
  exact ⟨by simpa using fun a b among => (each (a, b) among).1,
    List.map_congr_left fun pair among => (each pair among).2⟩

/-- Where nothing is declared below a node, nothing is reordered below it. -/
theorem children_eq (silent : ∀ child ∈ (Node.mk id (kind.map Prod.fst)).children, child.Silent) :
    kind.map Prod.snd = kind.map Prod.fst ∧
      ∀ child ∈ (kind.map Prod.fst).children, child.IsOperand := by
  have each (pair : Node × Node) (among : pair ∈ kind.children) :=
    paired.operand noProgram among (silent _ (child among))
  refine ⟨Kind.map_congr fun pair among => (each pair among).2, fun part among => ?_⟩
  rw [Kind.children_map] at among
  obtain ⟨pair, here, rfl⟩ := List.mem_map.1 among
  exact (each pair here).1

/-- A member of a function or an enumeration is not reordered. -/
theorem members {pairs : List (Node × Node)} (sub : pairs ⊆ kind.children)
    {IsMember : Node → Prop} (isMember : ∀ node, IsMember node → node.IsParameter ∨ node.IsCase)
    (members : ∀ member ∈ pairs.map Prod.fst, IsMember member ∨ member.Silent) :
    (∀ member ∈ pairs.map Prod.fst, member.IsOperand ∨
      IsMember member ∧ ∀ operand ∈ member.children, operand.IsOperand) ∧
      pairs.map Prod.snd = pairs.map Prod.fst := by
  have each (pair : Node × Node) (among : pair ∈ pairs) : (pair.1.IsOperand ∨
      IsMember pair.1 ∧ ∀ operand ∈ pair.1.children, operand.IsOperand) ∧ pair.2 = pair.1 := by
    rcases members pair.1 (List.mem_map_of_mem among) with member | silent
    · have operands :=
        paired.orderly.operands_of_member (paired.inside (sub among)) (isMember _ member)
      exact ⟨.inr ⟨member, operands⟩, ((paired.reordered pair (sub among)).eq_of_member
        (isMember _ member) operands).symm⟩
    · obtain ⟨operand, same⟩ := paired.operand noProgram (sub among) silent
      exact ⟨.inl operand, same⟩
  exact ⟨by simpa using fun a b among => (each (a, b) among).1,
    List.map_congr_left fun pair among => (each pair among).2⟩

/-- A statement can stand in the body of a function. -/
theorem statement {pair : Node × Node} (among : pair ∈ kind.children) (item : pair.1.IsItem) :
    place.inFunction.Allows pair.1 :=
  paired.allows.child (child among) item (absurd · (noProgram pair among)) fun _ => by decide

end Parts

theorem program {pairs others : List (Node × Node)}
    (paired : Paired root place id (.program pairs)) (order : pairs.Perm others) :
    Rearranged place (.mk id (.program (pairs.map Prod.fst)))
      (.mk id (.program (others.map Prod.snd))) := by
  have setting := paired.allows.program ⟨_, rfl⟩
  refine .program setting (fun pair among => ?_) order
  refine paired.rearranged pair among _ (paired.inside among) ?_
  exact paired.allows.child (child among) (paired.inPlace _ (List.mem_map_of_mem among))
    (fun _ => setting) fun _ => by rw [setting]; decide

theorem namespaceDecl {name : String} {pairs others : List (Node × Node)}
    (paired : Paired root place id (.namespaceDecl name pairs)) (order : pairs.Perm others) :
    Rearranged place (.mk id (.namespaceDecl name (pairs.map Prod.fst)))
      (.mk id (.namespaceDecl name (others.map Prod.snd))) := by
  have named : place.named = true := by
    cases named : place.named with
    | true => rfl
    | false => exact absurd ⟨_, _, rfl⟩ (paired.allows.named named _ (Node.self_mem_preorder _))
  refine .namespaceDecl named (fun pair among => ?_) order
  refine paired.rearranged pair among _ (paired.inside among) ?_
  exact paired.allows.child (child among) (paired.inPlace _ (List.mem_map_of_mem among))
    (fun _ => rfl) fun _ => by decide

theorem functionDecl {name : String} {generics parameters body : List (Node × Node)}
    {returnType : Node × Node}
    (paired : Paired root place id (.functionDecl name generics parameters returnType body)) :
    Rearranged place
      (.mk id ((Kind.functionDecl name generics parameters returnType body).map Prod.fst))
      (.mk id ((Kind.functionDecl name generics parameters returnType body).map Prod.snd)) := by
  have noProgram := paired.noProgram nofun nofun
  obtain ⟨silent, members, items⟩ := paired.inPlace
  obtain ⟨operands, same⟩ := paired.operands noProgram
    (show returnType :: generics ⊆ _ by simp [Kind.children]) silent
  obtain ⟨receives, sameParameters⟩ := paired.members noProgram
    (show parameters ⊆ _ by simp [Kind.children]) (fun _ => .inl) members
  rw [List.map_cons, List.map_cons, List.cons.injEq] at same
  simp only [Kind.map, same, sameParameters]
  refine .functionDecl (paired.allows.function ⟨_, _, _, _, _, rfl⟩) operands receives
    fun pair among => ?_
  have among' : pair ∈ generics ++ parameters ++ returnType :: body := by simp [among]
  exact paired.rearranged pair among' _ (paired.inside among')
    (paired.statement noProgram among' (items _ (List.mem_map_of_mem among)))

theorem recordDecl {name : String} {generics declarations : List (Node × Node)}
    (paired : Paired root place id (.recordDecl name generics declarations)) :
    Rearranged place
      (.mk id ((Kind.recordDecl name generics declarations).map Prod.fst))
      (.mk id ((Kind.recordDecl name generics declarations).map Prod.snd)) := by
  have noProgram := paired.noProgram nofun nofun
  have isRecord : (Node.mk id ((Kind.recordDecl name generics declarations).map
    Prod.fst)).IsRecord := ⟨_, _, _, rfl⟩
  obtain ⟨silent, items⟩ := paired.inPlace
  obtain ⟨operands, same⟩ := paired.operands noProgram
    (show generics ⊆ _ by simp [Kind.children]) silent
  simp only [Kind.map, same]
  refine .recordDecl operands fun pair among => ?_
  have among' : pair ∈ generics ++ declarations := by simp [among]
  refine paired.rearranged pair among' _ (paired.inside among')
    { paired.allows.child (child among') (items _ (List.mem_map_of_mem among))
      (absurd · (noProgram pair among')) (absurd · (paired.orderly.methods _ paired.mem isRecord _
        (child among'))) with fields := fun _ inner deeper => ?_ }
  exact paired.orderly.fields _ paired.mem isRecord inner
    (Node.mem_preorder_of_mem_children (child among') deeper)

theorem enumerationDecl {name : String} {generics cases : List (Node × Node)}
    (paired : Paired root place id (.enumerationDecl name generics cases)) :
    Rearranged place
      (.mk id ((Kind.enumerationDecl name generics cases).map Prod.fst))
      (.mk id ((Kind.enumerationDecl name generics cases).map Prod.snd)) := by
  have noProgram := paired.noProgram nofun nofun
  obtain ⟨silent, members⟩ := paired.inPlace
  obtain ⟨operands, same⟩ := paired.operands noProgram
    (show generics ⊆ _ by simp [Kind.children]) silent
  obtain ⟨members, sameCases⟩ := paired.members noProgram
    (show cases ⊆ _ by simp [Kind.children]) (fun _ => .inr) members
  simp only [Kind.map, same, sameCases]
  exact .enumerationDecl operands members

theorem variableDecl {name : String} {type? initializer? : Option (Node × Node)}
    (paired : Paired root place id (.variableDecl name type? initializer?)) :
    Rearranged place
      (.mk id ((Kind.variableDecl name type? initializer?).map Prod.fst))
      (.mk id ((Kind.variableDecl name type? initializer?).map Prod.snd)) := by
  have outside : place.inRecord = false := by
    cases inRecord : place.inRecord with
    | false => rfl
    | true => cases paired.allows.fields inRecord _ (Node.self_mem_preorder _)
  obtain ⟨same, operands⟩ := paired.children_eq (paired.noProgram nofun nofun) paired.inPlace
  rw [same]
  exact .variableDecl outside operands

/-- Branches and loops are alike. -/
theorem block_parts {condition : Node × Node} {block : List (Node × Node)}
    {kind : Kind (Node × Node)} (paired : Paired root place id kind)
    (isBlock : kind = .branch condition block ∨ kind = .loop condition block) :
    condition.1.IsOperand ∧ condition.2 = condition.1 ∧
      ∀ pair ∈ block, Rearranged place.inBlock pair.1 pair.2 := by
  have noProgram := paired.noProgram
    (by rintro ⟨_, same⟩; rcases isBlock with rfl | rfl <;> cases same)
    (by rintro ⟨_, _, same⟩; rcases isBlock with rfl | rfl <;> cases same)
  have declaresBlock : (Node.mk id (kind.map Prod.fst)).IsBlock := by
    rcases isBlock with rfl | rfl
    · exact ⟨_, _, .inl rfl⟩
    · exact ⟨_, _, .inr rfl⟩
  have children : kind.children = condition :: block := by
    rcases isBlock with rfl | rfl <;> rfl
  have inPlace : condition.1.Silent ∧ ∀ item ∈ block.map Prod.fst, item.IsItem := by
    have inPlace := paired.inPlace
    rcases isBlock with rfl | rfl <;> exact inPlace
  obtain ⟨operand, same⟩ := paired.operand noProgram (by simp [children]) inPlace.1
  refine ⟨operand, same, fun pair among => ?_⟩
  have among' : pair ∈ kind.children := by simp [children, among]
  refine paired.rearranged pair among' _ (paired.inside among')
    { paired.statement noProgram among' (inPlace.2 _ (List.mem_map_of_mem among)) with
      named := fun _ inner deeper => ?_ }
  exact paired.orderly.blocks _ paired.mem declaresBlock inner
    (Node.mem_preorder_of_mem_children (child among') deeper)

theorem branch {condition : Node × Node} {block : List (Node × Node)}
    (paired : Paired root place id (.branch condition block)) :
    Rearranged place (.mk id ((Kind.branch condition block).map Prod.fst))
      (.mk id ((Kind.branch condition block).map Prod.snd)) := by
  obtain ⟨operand, same, parts⟩ := paired.block_parts (.inl rfl)
  simp only [Kind.map, same]
  exact .branch operand parts

theorem loop {condition : Node × Node} {block : List (Node × Node)}
    (paired : Paired root place id (.loop condition block)) :
    Rearranged place (.mk id ((Kind.loop condition block).map Prod.fst))
      (.mk id ((Kind.loop condition block).map Prod.snd)) := by
  obtain ⟨operand, same, parts⟩ := paired.block_parts (.inr rfl)
  simp only [Kind.map, same]
  exact .loop operand parts

/-- An expression is not reordered. -/
theorem expression {kind : Kind (Node × Node)} (paired : Paired root place id kind)
    (quiet : (Node.mk id (kind.map Prod.fst)).declares = false)
    (program : ¬(Node.mk id (kind.map Prod.fst)).IsProgram)
    (silent : ∀ child ∈ (Node.mk id (kind.map Prod.fst)).children, child.Silent) :
    Rearranged place (.mk id (kind.map Prod.fst)) (.mk id (kind.map Prod.snd)) := by
  have space : ¬(Node.mk id (kind.map Prod.fst)).IsNamespace := by
    intro isNamespace
    rw [isNamespace.declares_eq] at quiet
    cases quiet
  obtain ⟨same, operands⟩ := paired.children_eq (paired.noProgram program space) silent
  rw [same]
  refine .operand fun inner below => ?_
  rcases Node.mem_preorder_iff.1 below with rfl | ⟨part, among, deeper⟩
  · exact ⟨quiet, program⟩
  · exact operands part among inner deeper

end Paired

/-- Reordered trees, the first of them in an orderly tree, are rearranged. -/
theorem Node.Reordered.rearranged_of_allows {root node other : Node} (orderly : root.Orderly)
    (h : Reordered node other) {place : Surroundings} (mem : node ∈ root.preorder)
    (allows : place.Allows node) : Rearranged place node other := by
  induction h generalizing place with
  | @mk id kind other order parts ih =>
    have paired : Paired root place id kind :=
      ⟨orderly, mem, allows, parts, fun pair among place mem allows => ih pair among mem allows⟩
    cases order with
    | program order => exact paired.program order
    | namespaceDecl name order => exact paired.namespaceDecl order
    | refl =>
      cases kind with
      | program declarations => exact paired.program (.refl _)
      | namespaceDecl name declarations => exact paired.namespaceDecl (.refl _)
      | functionDecl => exact paired.functionDecl
      | recordDecl => exact paired.recordDecl
      | enumerationDecl => exact paired.enumerationDecl
      | variableDecl => exact paired.variableDecl
      | branch => exact paired.branch
      | loop => exact paired.loop
      | parameter => exact absurd ⟨_, _, _, rfl⟩ allows.item.1
      | enumerationCase => exact absurd ⟨_, _, rfl⟩ allows.item.2
      | _ => exact paired.expression rfl nofun paired.inPlace

/-- Reordered trees, the first of them orderly, are rearranged.  A parameter or the case of an
enumeration is no tree of its own, but in such a node nothing is reordered. -/
theorem Node.Reordered.rearranged {root other : Node} (orderly : root.Orderly)
    (h : Reordered root other) : root = other ∨ Rearranged .outermost root other := by
  by_cases member : root.IsParameter ∨ root.IsCase
  · exact .inl (h.eq_of_member member (orderly.operands_of_member root.self_mem_preorder member))
  · rw [not_or] at member
    exact .inr (h.rearranged_of_allows orderly root.self_mem_preorder
      ⟨member, fun _ => rfl, fun _ => by decide, nofun, nofun⟩)

section Pairs

variable {β : Type} {pairs others : List (Node × Node)} {f : Node → List β}

/-- What is collected from both trees of every pair is the same up to the order. -/
theorem flatMap_perm (parts : ∀ pair ∈ pairs, (f pair.1).Perm (f pair.2))
    (order : pairs.Perm others) :
    ((pairs.map Prod.fst).flatMap f).Perm ((others.map Prod.snd).flatMap f) := by
  rw [List.flatMap_map, List.flatMap_map]
  exact (List.Perm.flatMap_left pairs parts).trans (order.flatMap_right _)

theorem flatMap_congr (parts : ∀ pair ∈ pairs, f pair.1 = f pair.2) :
    (pairs.map Prod.fst).flatMap f = (pairs.map Prod.snd).flatMap f := by
  rw [List.flatMap_map, List.flatMap_map]
  exact List.flatMap_congr parts

end Pairs

namespace Rearranged

variable {place : Surroundings} {left right : Node}

theorem symm (h : Rearranged place left right) : Rearranged place right left := by
  induction h with
  | operand silent => exact .operand silent
  | @program place id pairs others setting parts order ih =>
    have parts : ∀ pair ∈ others.map Prod.swap, Rearranged place pair.1 pair.2 :=
      List.forall_mem_map.2 fun pair mem => ih pair (order.mem_iff.2 mem)
    have turned := @Rearranged.program place id (others.map Prod.swap) (pairs.map Prod.swap) setting
      parts (order.symm.map _)
    simpa [Function.comp_def] using turned
  | @namespaceDecl place id name pairs others named parts order ih =>
    have parts : ∀ pair ∈ others.map Prod.swap, Rearranged place.inNamespace pair.1 pair.2 :=
      List.forall_mem_map.2 fun pair mem => ih pair (order.mem_iff.2 mem)
    have turned := @Rearranged.namespaceDecl place id name (others.map Prod.swap)
      (pairs.map Prod.swap) named parts (order.symm.map _)
    simpa [Function.comp_def] using turned
  | @functionDecl place id name generics parameters returnType pairs setting operands receives parts
      ih =>
    have turned := @Rearranged.functionDecl place id name generics parameters returnType
      (pairs.map Prod.swap) setting operands receives (List.forall_mem_map.2 ih)
    simpa [Function.comp_def] using turned
  | @recordDecl place id name generics pairs operands parts ih =>
    have turned := @Rearranged.recordDecl place id name generics (pairs.map Prod.swap) operands
      (List.forall_mem_map.2 ih)
    simpa [Function.comp_def] using turned
  | enumerationDecl operands members => exact .enumerationDecl operands members
  | variableDecl outside operands => exact .variableDecl outside operands
  | @branch place id condition pairs operand parts ih =>
    have turned := @Rearranged.branch place id condition (pairs.map Prod.swap) operand
      (List.forall_mem_map.2 ih)
    simpa [Function.comp_def] using turned
  | @loop place id condition pairs operand parts ih =>
    have turned := @Rearranged.loop place id condition (pairs.map Prod.swap) operand
      (List.forall_mem_map.2 ih)
    simpa [Function.comp_def] using turned

theorem id_eq (h : Rearranged place left right) : left.id = right.id := by
  cases h <;> rfl

/-- Rearranged trees have the same identities. -/
theorem identities_perm (h : Rearranged place left right) :
    left.identities.Perm right.identities := by
  induction h with
  | operand | enumerationDecl | variableDecl => exact .refl _
  | program _ _ order ih | namespaceDecl _ _ order ih =>
    rw [Node.identities_eq, Node.identities_eq]
    exact (flatMap_perm ih order).cons _
  | functionDecl _ _ _ _ ih =>
    rw [Node.identities_eq, Node.identities_eq]
    simp only [Node.children, Node.kind_mk, Kind.children, List.flatMap_append, List.flatMap_cons,
      Node.id_mk]
    exact (((flatMap_perm ih (.refl _)).append_left _).append_left _).cons _
  | recordDecl _ _ ih =>
    rw [Node.identities_eq, Node.identities_eq]
    simp only [Node.children, Node.kind_mk, Kind.children, List.flatMap_append, Node.id_mk]
    exact ((flatMap_perm ih (.refl _)).append_left _).cons _
  | branch _ _ ih | loop _ _ ih =>
    rw [Node.identities_eq, Node.identities_eq]
    simp only [Node.children, Node.kind_mk, Kind.children, List.flatMap_cons, Node.id_mk]
    exact ((flatMap_perm ih (.refl _)).append_left _).cons _

theorem distinct (h : Rearranged place left right) (distinct : left.Distinct) : right.Distinct :=
  h.identities_perm.nodup_iff.1 distinct

section Bindings

/-- The order of what a node binds in the scope around it may differ. -/
theorem bindings_perm (h : Rearranged place left right) : left.bindings.Perm right.bindings := by
  induction h with
  | operand | enumerationDecl | variableDecl => exact .refl _
  | program _ _ order ih =>
    rw [Node.bindings_eq, Node.bindings_eq]
    exact flatMap_perm ih order
  | recordDecl _ _ ih =>
    rw [Node.bindings_eq, Node.bindings_eq]
    simp only [Node.children, Node.kind_mk, Kind.children, List.flatMap_append]
    exact (flatMap_perm ih (.refl _)).append_left _
  | namespaceDecl | functionDecl | branch | loop =>
    rw [Node.bindings_eq, Node.bindings_eq]
    exact .refl _

theorem flatMap_bindings_operands {operands : List Node}
    (silent : ∀ operand ∈ operands, operand.IsOperand) : operands.flatMap Node.bindings = [] :=
  List.flatMap_eq_nil_iff.2 fun operand mem => (silent operand mem).silent.bindings_eq

/-- Cases bind nothing. -/
theorem bindings_case {member : Node} (isCase : member.IsCase)
    (operands : ∀ operand ∈ member.children, operand.IsOperand) : member.bindings = [] := by
  obtain ⟨_, _, kind⟩ := isCase
  rw [Node.bindings_eq, kind]
  exact flatMap_bindings_operands operands

/-- A record binds nothing. -/
theorem bindings_eq_nil (h : Rearranged place left right) (setting : place.setting = .record)
    (inRecord : place.inRecord = true) : left.bindings = [] := by
  induction h with
  | operand silent => exact silent.silent.bindings_eq
  | program other => rw [setting] at other; cases other
  | namespaceDecl | branch | loop => exact Node.bindings_eq _
  | functionDecl other => exact absurd setting other
  | recordDecl operands _ ih =>
    rw [Node.bindings_eq]
    simp only [Node.children, Node.kind_mk, Kind.children, List.flatMap_append,
      flatMap_bindings_operands operands, List.nil_append, List.flatMap_map]
    exact List.flatMap_eq_nil_iff.2 fun pair mem => ih pair mem rfl rfl
  | enumerationDecl operands members =>
    rw [Node.bindings_eq]
    simp only [Node.children, Node.kind_mk, Kind.children, List.flatMap_append,
      flatMap_bindings_operands operands, List.nil_append]
    exact List.flatMap_eq_nil_iff.2 fun member mem => (members member mem).elim
      (fun silent => silent.silent.bindings_eq) fun own => bindings_case own.1 own.2
  | variableDecl outside => rw [inRecord] at outside; cases outside

/-- Among statements, what a node binds is bound in the same order. -/
theorem bindings_eq (h : Rearranged place left right) (setting : place.setting = .statements) :
    left.bindings = right.bindings := by
  cases h with
  | operand | enumerationDecl | variableDecl => rfl
  | program other => rw [setting] at other; cases other
  | namespaceDecl | functionDecl | branch | loop => rw [Node.bindings_eq, Node.bindings_eq]; rfl
  | recordDecl operands parts =>
    rw [Node.bindings_eq, Node.bindings_eq]
    simp only [Node.children, Node.kind_mk, Kind.children, List.flatMap_append]
    refine congrArg _ (flatMap_congr fun pair mem => ?_)
    rw [(parts pair mem).bindings_eq_nil rfl rfl, (parts pair mem).symm.bindings_eq_nil rfl rfl]

end Bindings

section Registrations

variable {enclosing : List String}

/-- Rearranged trees make the same registrations. -/
theorem registrations_perm (h : Rearranged place left right) (enclosing : List String) :
    (left.registrations enclosing).Perm (right.registrations enclosing) := by
  induction h generalizing enclosing with
  | operand | enumerationDecl | variableDecl => exact .refl _
  | program _ _ order ih | namespaceDecl _ _ order ih =>
    rw [Node.registrations_eq, Node.registrations_eq]
    exact ((flatMap_perm (fun pair mem => ih pair mem _) order).append_left _).append_right _
  | functionDecl _ _ _ _ ih =>
    rw [Node.registrations_eq, Node.registrations_eq]
    refine (List.Perm.append_left _ ?_).append_right _
    simp only [Node.opensPaths, Node.children, Node.kind_mk, Kind.children, List.flatMap_append,
      List.flatMap_cons, if_true]
    exact ((flatMap_perm (fun pair mem => ih pair mem _) (.refl _)).append_left _).append_left _
  | recordDecl _ _ ih =>
    rw [Node.registrations_eq, Node.registrations_eq]
    refine (List.Perm.append_left _ ?_).append_right _
    simp only [Node.opensPaths, Node.children, Node.kind_mk, Kind.children, List.flatMap_append,
      if_true]
    exact (flatMap_perm (fun pair mem => ih pair mem _) (.refl _)).append_left _
  | branch | loop =>
    rw [Node.registrations_eq, Node.registrations_eq]
    exact .refl _

/-- What a node binds among declarations is registered. -/
theorem registered_of_mem_bindings (h : Rearranged place left right)
    (setting : place.setting = .declarations) {name : String} {id : NodeId}
    (mem : (name, id) ∈ left.bindings) (enclosing : List String) :
    ⟨.value, Path.qualify enclosing name, id⟩ ∈ left.registrations enclosing := by
  induction h with
  | operand silent =>
    rw [silent.silent.bindings_eq] at mem
    cases mem
  | @program place own pairs others _ parts order ih =>
    rw [Node.bindings_eq] at mem
    obtain ⟨item, among, bound⟩ := List.mem_flatMap.1 mem
    obtain ⟨pair, here, rfl⟩ := List.mem_map.1 among
    rw [Node.registrations_eq]
    have deeper := ih pair here setting bound
    simp only [Node.opensPaths, Node.qualifier?, Node.kind_mk, if_true, Option.toList_none,
      List.append_nil]
    exact List.mem_append_left _ (List.mem_append_right _
      (List.mem_flatMap.2 ⟨pair.1, among, deeper⟩))
  | namespaceDecl | branch | loop =>
    rw [Node.bindings_eq] at mem
    cases mem
  | functionDecl =>
    rw [Node.bindings_eq] at mem
    cases List.mem_singleton.1 mem
    rw [Node.registrations_eq]
    exact List.mem_append_left _ (List.mem_append_left _ List.mem_cons_self)
  -- A record and an enumeration bind names for their members only, never for the program.
  | @recordDecl place own other generics pairs operands parts =>
    have inRecord := @recordDecl place.inRecordDecl own other generics pairs operands parts
    rw [inRecord.bindings_eq_nil rfl rfl] at mem
    cases mem
  | @enumerationDecl place own other generics cases operands members =>
    have inRecord := @enumerationDecl place.inRecordDecl own other generics cases operands members
    rw [inRecord.bindings_eq_nil rfl rfl] at mem
    cases mem
  | variableDecl outside operands =>
    rw [Node.bindings_eq] at mem
    rcases List.mem_append.1 mem with inner | own
    · obtain ⟨operand, among, bound⟩ := List.mem_flatMap.1 inner
      rw [(operands operand among).silent.bindings_eq] at bound
      cases bound
    · cases List.mem_singleton.1 own
      rw [Node.registrations_eq]
      exact List.mem_append_left _ (List.mem_append_left _ List.mem_cons_self)

end Registrations

end Rearranged

end DeclLang
