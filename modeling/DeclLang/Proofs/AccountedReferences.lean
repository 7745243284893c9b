import DeclLang.Proofs.Listings
import DeclLang.Proofs.Sightings

/-!
# Every reference is accounted for

**Input.**  A tree with distinct identities that has a namespace.

**Invariant.**  `Scope.Names`: what is bound under a name is a declaration of the tree; it has that
name, as long as neither names of declarations nor the name itself have dots in them.  The property
holds of everything on the stacks (`Scope.covers_names`), also of what a namespace binds under the
last part of a path.

**Results.**
* `Node.exists_of_mem_declarations`: a path in the namespace ends in the name of its declaration.
* `Scope.build_accounts`: a reference is either known or undefined, nothing else is, every undefined
  reference is reported once, and whatever is known refers to a declaration of the tree.
-/

namespace DeclLang

namespace Path

variable {enclosing : List String} {declared name owner : String}

/-- A path without a dot is the name that it was made for. -/
theorem eq_of_qualify (same : qualify enclosing declared = name) (plain : '.' ∉ name.toList) :
    declared = name := by
  unfold qualify at same
  dsimp only at same
  split at same
  · exact same
  · refine absurd ?_ plain
    rw [← same]
    simp

/-- What stands behind the last dots of a text is determined by the text. -/
theorem eq_of_append_dot {left right first second : List Char} (plain : '.' ∉ first)
    (plainSecond : '.' ∉ second) (same : left ++ '.' :: first = right ++ '.' :: second) :
    first = second := by
  have last (left : List Char) {first : List Char} (plain : '.' ∉ first) :
      (left ++ '.' :: first).reverse.takeWhile (· != '.') = first.reverse := by
    have others : ∀ c ∈ first.reverse, (c != '.') = true := fun c mem => by
      rw [bne_iff_ne]
      rintro rfl
      exact plain (List.mem_reverse.1 mem)
    rw [List.reverse_append, List.reverse_cons, List.append_assoc,
      List.takeWhile_append_of_pos others]
    simp
  have ends := last right plainSecond
  rw [← same, last left plain] at ends
  exact List.reverse_inj.1 ends

/-- A direct member has the name that its path was made for, if that name has no dot. -/
theorem eq_of_qualify_member (same : qualify enclosing declared = owner ++ "." ++ name)
    (plainDeclared : '.' ∉ declared.toList) (plain : '.' ∉ name.toList) : declared = name := by
  unfold qualify at same
  dsimp only at same
  split at same
  · refine absurd ?_ plainDeclared
    rw [same]
    simp
  · have texts := congrArg String.toList same
    simp only [String.toList_append, List.append_assoc] at texts
    exact String.toList_injective (eq_of_append_dot plainDeclared plain texts)

end Path

namespace Node

/-- No name of a declaration in the tree has a dot in it. -/
def DotFree (root : Node) : Prop :=
  ∀ node ∈ root.preorder, ∀ name ∈ node.declaredName?, '.' ∉ name.toList

instance (root : Node) : Decidable root.DotFree :=
  inferInstanceAs
    (Decidable (∀ node ∈ root.preorder, ∀ name ∈ node.declaredName?, '.' ∉ name.toList))

/-- What a tree declares are nodes of the tree, under paths that end in their names. -/
theorem exists_of_mem_declarations {root : Node} {registration : Registration}
    (mem : registration ∈ root.declarations) :
    ∃ node ∈ root.preorder, node.id = registration.id ∧
      ∃ enclosing declared, node.declaredName? = some declared ∧
        registration.path = Path.qualify enclosing declared := by
  obtain ⟨⟨around, node⟩, lineage, mem⟩ := List.mem_flatMap.1 mem
  have inside : node ∈ root.preorder := by
    rw [← map_snd_lineages [] root]
    exact List.mem_map_of_mem lineage
  unfold declaredWithin at mem
  split at mem
  · obtain ⟨id, kind⟩ := node
    cases kind with
    | functionDecl | parameter | variableDecl =>
      cases List.mem_singleton.1 mem
      exact ⟨_, inside, rfl, _, _, rfl, rfl⟩
    | recordDecl name =>
      unfold declared at mem
      dsimp only [kind_mk] at mem
      split at mem
      · cases List.mem_singleton.1 mem
        exact ⟨_, inside, rfl, _, name, rfl, rfl⟩
      · rcases List.mem_pair.1 mem with rfl | rfl
        · exact ⟨_, inside, rfl, _, name, rfl, rfl⟩
        · exact ⟨_, inside, rfl, _, name, rfl, rfl⟩
    | enumerationDecl name generics cases =>
      rcases List.mem_cons.1 mem with rfl | mem
      · exact ⟨_, inside, rfl, _, _, rfl, rfl⟩
      · obtain ⟨member, among, isCase⟩ := List.mem_filterMap.1 mem
        have inTree : member ∈ root.preorder := mem_preorder_trans inside
          (mem_preorder_of_mem_children (List.mem_append_right _ among) member.self_mem_preorder)
        unfold caseRegistration? at isCase
        split at isCase
        · rename_i own values isMember
          cases isCase
          exact ⟨member, inTree, rfl, _, own, congrArg Kind.declaredName? isMember, rfl⟩
        · cases isCase
    | _ => cases mem
  · cases mem

end Node

namespace Scope

/-- The identity belongs to a declaration of the tree, which has the name if there are no dots. -/
def Names (root : Node) (name : String) (id : NodeId) : Prop :=
  ∃ node ∈ root.preorder, node.id = id ∧
    ∃ declared, node.declaredName? = some declared ∧
      (root.DotFree → '.' ∉ name.toList → declared = name)

section Names

variable {root : Node} {names : Namespace}

/-- A path in the namespace has the property, and so has a member under its own name. -/
theorem names_of_path (built : Namespace.build root = .ok names) {kind : NameKind} {path : String}
    {id : NodeId} (found : (names.table kind)[path]? = some id) :
    ∃ node ∈ root.preorder, node.id = id ∧
      ∃ enclosing declared, node.declaredName? = some declared ∧
        path = Path.qualify enclosing declared := by
  have registered := (Namespace.getElem?_of_build built kind path id).1 found
  rw [root.registrations_eq_declarations] at registered
  exact Node.exists_of_mem_declarations registered

theorem covers_names (built : Namespace.build root = .ok names) :
    Covers root names (Names root) where
  declared node mem name isName := ⟨node, mem, rfl, name, isName, fun _ _ => rfl⟩
  paths kind path id found := by
    obtain ⟨node, mem, same, enclosing, declared, isName, rfl⟩ := names_of_path built found
    exact ⟨node, mem, same, declared, isName, fun _ plain => Path.eq_of_qualify rfl plain⟩
  members kind owner binding among := by
    obtain ⟨⟨path, id⟩, entry, named⟩ := List.mem_filterMap.1 among
    obtain ⟨name, isMember, rfl⟩ := Option.map_eq_some_iff.1 named
    obtain ⟨rfl, -⟩ := Path.memberName?_eq_some_iff.1 isMember
    obtain ⟨node, mem, same, enclosing, declared, isName, path⟩ :=
      names_of_path built (Std.TreeMap.mem_toList_iff_getElem?_eq_some.1 entry)
    exact ⟨node, mem, same, declared, isName, fun dotFree plain =>
      Path.eq_of_qualify_member path.symm (dotFree node mem declared isName) plain⟩

/-- The outermost scope holds nothing but paths of the namespace. -/
theorem framed_start (built : Namespace.build root = .ok names) :
    Framed (Names root) (start names) := by
  have covers := covers_names built
  have empty : ({} : ScopeStack NodeId).Every (Names root) := nofun
  have entries (kind : NameKind) :
      ∀ binding ∈ (names.table kind).toList, Names root binding.1 binding.2 :=
    fun binding mem => covers.paths kind _ _ (Std.TreeMap.mem_toList_iff_getElem?_eq_some.1 mem)
  exact ⟨empty.pushFrame (entries .value), empty.pushFrame (entries .type), nofun⟩

end Names

/-- The part of a list without repetitions whose elements have a property. -/
theorem filter_eq_of_sublist {α : Type} {part whole : List α} {p : α → Bool}
    (sub : part.Sublist whole) (distinct : whole.Nodup) (same : ∀ x ∈ whole, p x ↔ x ∈ part) :
    whole.filter p = part := by
  induction sub with
  | slnil => rfl
  | cons x sub ih =>
    rw [List.nodup_cons] at distinct
    have absent : ¬p x := fun holds => distinct.1 (sub.subset ((same x List.mem_cons_self).1 holds))
    rw [List.filter_cons_of_neg absent,
      ih distinct.2 fun y mem => same y (List.mem_cons_of_mem _ mem)]
  | cons_cons x sub ih =>
    rw [List.nodup_cons] at distinct
    rw [List.filter_cons_of_pos ((same x List.mem_cons_self).2 List.mem_cons_self), ih distinct.2]
    intro y mem
    rw [same y (List.mem_cons_of_mem _ mem), List.mem_cons, or_iff_right]
    rintro rfl
    exact distinct.1 mem

theorem mem_known_iff {scope : Scope} {kind : ReferenceKind} {id : NodeId} :
    id ∈ scope.known kind ↔ ∃ declaration, (scope.known kind)[id]? = some declaration := by
  rw [Std.TreeMap.mem_iff_isSome_getElem?, Option.isSome_iff_exists]

/-- What was reported is one warning for each reference that was not found. -/
theorem flatMap_reports (seen : List Sighting) :
    seen.flatMap Sighting.reports =
      ((seen.filter (·.declaration?.isNone)).map Sighting.node).map Node.undefinedWarning := by
  induction seen with
  | nil => rfl
  | cons sighting seen ih =>
    rw [List.flatMap_cons, ih]
    obtain ⟨node, kind, isReference, declaration?⟩ := sighting
    cases declaration? <;> rfl

/-- A tour that has come to its end, and what it has seen. -/
structure Accounts (root : Node) (names : Namespace) (full : Progress) (seen : List Sighting) :
    Prop where
  noted : Notes seen (start names) full
  nodes : seen.map Sighting.node = entered (moments root)
  sound : ∀ sighting ∈ seen, sighting.Sound (Names root)

section Accounts

variable {root : Node} {names : Namespace} {full : Progress} {seen : List Sighting}

/-- A tour that is not stopped accounts for what it has seen. -/
theorem exists_accounts (built : Namespace.build root = .ok names) :
    ∃ full seen, build root names none = (.ok full.scope, full.diagnostics) ∧
      Accounts root names full seen := by
  obtain ⟨full, ran, toured⟩ := build_run names root
  obtain ⟨seen, noted, nodes, -, sound⟩ := run_sees (covers_names built)
    (fun moment among => node_mem_of_mem_moments among) (framed_start built) ran
  exact ⟨full, seen, toured, noted, nodes, sound⟩

namespace Accounts

variable (accounts : Accounts root names full seen)

include accounts

theorem sublist : (seen.map Sighting.node).Sublist root.preorder := by
  rw [accounts.nodes]
  exact entered_sublist root

theorem mem_preorder {sighting : Sighting} (mem : sighting ∈ seen) :
    sighting.node ∈ root.preorder :=
  accounts.sublist.subset (List.mem_map_of_mem mem)

variable (distinct : root.Distinct)

include distinct

theorem nodup : (seen.map fun sighting => sighting.node.id).Nodup := by
  have ids := distinct.sublist (accounts.sublist.map Node.id)
  rw [List.map_map] at ids
  exact ids

/-- A reference was seen if no member expression is around it. -/
theorem mem_map_node_iff {node : Node} :
    node ∈ seen.map Sighting.node ↔
      (node ∈ root.preorder ∧ root.Uncovered node) ∧ node.referenceKind?.isSome := by
  rw [accounts.nodes, entered, List.mem_filter, entered_moments, Node.mem_exposed_iff distinct]

/-- What was seen is either known or undefined. -/
theorem known_or_undefined {sighting : Sighting} (mem : sighting ∈ seen) :
    sighting.node.id ∈ full.scope.known sighting.kind ↔
      sighting.node.id ∉ full.scope.undefined sighting.kind := by
  have nodup := accounts.nodup distinct
  have same {other : Sighting} (among : other ∈ seen) (same : other.node.id = sighting.node.id) :
      other = sighting := List.inj_on_of_nodup_map nodup among mem same
  rw [mem_known_iff, accounts.noted.undefined_iff]
  simp only [accounts.noted.known_iff nodup]
  cases found : sighting.declaration? with
  | some declaration =>
    refine iff_of_true ⟨declaration, sighting, mem, rfl, rfl, found⟩ ?_
    rintro ⟨other, among, -, sameId, missing⟩
    rw [same among sameId, found] at missing
    cases missing
  | none =>
    refine iff_of_false ?_ fun absent => absent ⟨sighting, mem, rfl, rfl, found⟩
    rintro ⟨declaration, other, among, -, sameId, known⟩
    rw [same among sameId, found] at known
    cases known

/-- What is known or undefined was seen. -/
theorem exists_sighting {kind : ReferenceKind} {id : NodeId}
    (noted : id ∈ full.scope.known kind ∨ id ∈ full.scope.undefined kind) :
    ∃ sighting ∈ seen, sighting.kind = kind ∧ sighting.node.id = id := by
  rcases noted with known | undefined
  · obtain ⟨declaration, known⟩ := mem_known_iff.1 known
    obtain ⟨sighting, mem, ofKind, same, -⟩ :=
      (accounts.noted.known_iff (accounts.nodup distinct)).1 known
    exact ⟨sighting, mem, ofKind, same⟩
  · obtain ⟨sighting, mem, ofKind, same, -⟩ := accounts.noted.undefined_iff.1 undefined
    exact ⟨sighting, mem, ofKind, same⟩

/-- Undefined references were reported in preorder. -/
theorem reports :
    full.diagnostics.toList =
      (root.preorder.filter (full.scope.isUndefined ·.id)).map Node.undefinedWarning := by
  have missed : ((seen.filter (·.declaration?.isNone)).map Sighting.node).Sublist root.preorder :=
    (List.filter_sublist.map _).trans accounts.sublist
  have undefined : root.preorder.filter (full.scope.isUndefined ·.id) =
      (seen.filter (·.declaration?.isNone)).map Sighting.node := by
    refine filter_eq_of_sublist missed (List.Nodup.of_map _ distinct) fun node inside => ?_
    rw [isUndefined_iff, List.mem_map]
    simp only [accounts.noted.undefined_iff, List.mem_filter, Option.isNone_iff_eq_none]
    constructor
    · rintro ⟨-, sighting, mem, -, same, missing⟩
      exact ⟨sighting, ⟨mem, missing⟩,
        Node.eq_of_id_eq distinct (accounts.mem_preorder mem) inside same⟩
    · rintro ⟨sighting, ⟨mem, missing⟩, rfl⟩
      exact ⟨sighting.kind, sighting, mem, rfl, rfl, missing⟩
  rw [accounts.noted.diagnostics, flatMap_reports, undefined]
  rfl

/-- What is known refers to a declaration of the tree. -/
theorem target {kind : ReferenceKind} {reference target : NodeId}
    (known : (full.scope.known kind)[reference]? = some target) :
    ∃ declaration ∈ root.preorder, declaration.id = target ∧
      ∃ declared, declaration.declaredName? = some declared ∧
        (root.DotFree → ∀ node ∈ root.preorder, node.id = reference →
          ∀ name, node.kind = .identifier name → '.' ∉ name.toList → declared = name) := by
  obtain ⟨sighting, mem, -, same, found⟩ :=
    (accounts.noted.known_iff (accounts.nodup distinct)).1 known
  obtain ⟨⟨path, declaration, inside, sameTarget, declared, isName, -⟩, names⟩ :=
    accounts.sound sighting mem target found
  refine ⟨declaration, inside, sameTarget, declared, isName,
    fun dotFree node nodeInside sameNode name isIdentifier plain => ?_⟩
  obtain rfl := Node.eq_of_id_eq distinct (accounts.mem_preorder mem) nodeInside
    (same.trans sameNode.symm)
  -- The name is that of another declaration with the same identity, so of the same one.
  obtain ⟨other, otherInside, sameOther, own, isOwn, fits⟩ := names name isIdentifier
  obtain rfl := Node.eq_of_id_eq distinct inside otherInside (sameTarget.trans sameOther.symm)
  exact (Option.some.inj (isName.symm.trans isOwn)).trans (fits dotFree plain)

end Accounts

/-- A tour that is not stopped accounts for every reference.  Each one that is not below a member
expression is either known or undefined, as what it is, and nothing else is.  There is one warning
for each undefined one, in preorder.  What is known refers to a declaration of the tree, and to one
with the name of the identifier, if no dots are around. -/
theorem build_accounts (distinct : root.Distinct) (built : Namespace.build root = .ok names) :
    ∃ scope reports, build root names none = (.ok scope, reports) ∧
      (∀ node ∈ root.preorder, ∀ kind, node.referenceKind? = some kind → root.Uncovered node →
        (node.id ∈ scope.known kind ↔ node.id ∉ scope.undefined kind)) ∧
      (∀ kind id, id ∈ scope.known kind ∨ id ∈ scope.undefined kind →
        ∃ node ∈ root.preorder, node.id = id ∧ node.referenceKind? = some kind ∧
          root.Uncovered node) ∧
      reports.toList =
        (root.preorder.filter (scope.isUndefined ·.id)).map Node.undefinedWarning ∧
      ∀ kind reference target, (scope.known kind)[reference]? = some target →
        ∃ declaration ∈ root.preorder, declaration.id = target ∧
          ∃ declared, declaration.declaredName? = some declared ∧
            (root.DotFree → ∀ node ∈ root.preorder, node.id = reference →
              ∀ name, node.kind = .identifier name → '.' ∉ name.toList → declared = name) := by
  obtain ⟨full, seen, toured, accounts⟩ := exists_accounts built
  refine ⟨full.scope, full.diagnostics, toured, fun node inside kind isReference uncovered => ?_,
    fun kind id noted => ?_, accounts.reports distinct, fun kind reference target known =>
      accounts.target distinct known⟩
  · have seenNode : node ∈ seen.map Sighting.node :=
      (accounts.mem_map_node_iff distinct).2 ⟨⟨inside, uncovered⟩, by rw [isReference]; rfl⟩
    obtain ⟨sighting, mem, rfl⟩ := List.mem_map.1 seenNode
    cases sighting.isReference.symm.trans isReference
    exact accounts.known_or_undefined distinct mem
  · obtain ⟨sighting, mem, rfl, rfl⟩ := accounts.exists_sighting distinct noted
    obtain ⟨⟨inside, uncovered⟩, -⟩ :=
      (accounts.mem_map_node_iff distinct).1 (List.mem_map_of_mem mem)
    exact ⟨sighting.node, inside, rfl, sighting.isReference, uncovered⟩

/-- The identifier of the field is known, and refers to a declaration of that name.  The other name
of the branch is undefined. -/
theorem build_accounts_bakery :
    ∃ names scope reports, Namespace.build bakery = .ok names ∧
      build bakery names none = (.ok scope, reports) ∧
      (∃ declaration ∈ bakery.preorder, declaration.id = 2 ∧
        declaration.declaredName? = some "weight") ∧
      16 ∉ scope.known .identifier ∧ 16 ∈ scope.undefined .identifier := by
  have returned {node result : Node} (mem : result ∈ bakeryBranch.children)
      (children : result.children = [node]) : node ∈ bakery.preorder := by
    refine Node.mem_preorder_trans bakeryBranch_at.mem_preorder
      (Node.mem_preorder_of_mem_children mem
        (Node.mem_preorder_of_mem_children ?_ node.self_mem_preorder))
    rw [children]
    exact List.mem_singleton_self node
  have weight : Node.mk 14 (.identifier "weight") ∈ bakery.preorder :=
    returned (List.mem_cons_of_mem _ List.mem_cons_self) rfl
  have flour : Node.mk 16 (.identifier "flour") ∈ bakery.preorder :=
    returned (List.mem_cons_of_mem _ (List.mem_cons_of_mem _ List.mem_cons_self)) rfl
  have plain : bakery.DotFree ∧ ∀ outer ∈ bakery.preorder, outer.isMember = false := by
    decide +kernel
  have checked : ((Namespace.build bakery).toOption.bind fun names =>
      (build bakery names none).1.toOption.bind fun scope =>
        some ((scope.known .identifier)[14]?, (scope.known .identifier)[16]?)) =
          some (some 2, none) := by
    decide +kernel
  obtain ⟨names, found, checked⟩ := Option.bind_eq_some_iff.1 checked
  obtain ⟨scope, toured, known⟩ := Option.bind_eq_some_iff.1 checked
  simp only [Option.some.injEq, Prod.mk.injEq] at known
  obtain ⟨_, reports, built, either, -, -, target⟩ :=
    build_accounts bakery_wellFormed.1 (eq_ok_of_toOption found)
  rw [built] at toured
  cases toured
  have missing : 16 ∉ scope.known .identifier := by
    rw [mem_known_iff, known.2]
    simp
  have uncovered : bakery.Uncovered (.mk 16 (.identifier "flour")) := fun outer among isMember => by
    rw [plain.2 outer among] at isMember
    cases isMember
  obtain ⟨declaration, inside, same, declared, isName, fits⟩ := target .identifier 14 2 known.1
  cases fits plain.1 _ weight rfl "weight" rfl (by decide)
  refine ⟨names, _, reports, eq_ok_of_toOption found, built,
    ⟨declaration, inside, same, isName⟩, missing, ?_⟩
  by_contra absent
  exact missing ((either _ flour .identifier rfl uncovered).2 absent)

end Accounts

end Scope

end DeclLang
