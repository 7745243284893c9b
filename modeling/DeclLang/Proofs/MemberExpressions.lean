import DeclLang.Proofs.Paths

/-!
# Member expressions and their paths

**Input.**  A path, or a member expression over an identifier.

**Rule.**  `Node.Spells`: the names of a member expression, from its identifier to its outermost
member.

**Results.**
* `Node.Spells.dottedPath?_eq`: the path of a member expression is made of its names.
* `Node.spells_ofPath`: the member expression of a path has the segments of the path as its names.
* `Node.ofPath_roundTrip`: so a path is read off the member expression that is built of it, and a
  member expression is rebuilt from its path if no name has a dot in it.
-/

namespace DeclLang

namespace Node

/-- The node is a member expression over an identifier, or an identifier, with these names, the
innermost object first. -/
inductive Spells : Node → List String → Prop
  | identifier (id : NodeId) (name : String) : Spells (.mk id (.identifier name)) [name]
  | member (id : NodeId) {object : Node} {names : List String} (inner : Spells object names)
    (name : String) : Spells (.mk id (.member object name)) (names ++ [name])

variable {node : Node} {names others : List String}

theorem Spells.ne_nil (spells : node.Spells names) : names ≠ [] := by
  cases spells <;> simp

/-- A node has the names of one member expression. -/
theorem Spells.unique (spells : node.Spells names) (again : node.Spells others) :
    names = others := by
  induction spells generalizing others with
  | identifier id name =>
    cases again
    rfl
  | member id inner name ih =>
    cases again with
    | member _ innerAgain _ => rw [ih innerAgain]

/-- The path of a member expression is made of its names. -/
theorem Spells.dottedPath?_eq (spells : node.Spells names) :
    node.dottedPath? = some (Path.join names) := by
  induction spells with
  | identifier id name =>
    rw [dottedPath?]
    exact congrArg some (String.toList_injective (by simp [Path.join, List.intercalate]))
  | member id inner name ih =>
    rw [dottedPath?]
    simp only [kind_mk, ih, Option.map_some, Path.join_concat inner.ne_nil]

/-- Names are added behind those that a member expression has. -/
theorem Spells.foldl_addMember (spells : node.Spells names) (next : NodeId) (rest : List String) :
    (rest.foldl addMember (node, next)).1.Spells (names ++ rest) := by
  induction rest generalizing node next names with
  | nil => rwa [List.append_nil]
  | cons name rest ih =>
    rw [List.append_cons]
    exact ih (.member next spells name) (next + 1)

/-- The member expression of a path has the segments of the path as its names. -/
theorem spells_ofPath (first : NodeId) (path : String) :
    (ofPath first path).Spells (Path.segments path) := by
  unfold ofPath
  cases cut : Path.segments path with
  | nil => exact absurd cut (by simp [Path.segments, Path.cut_ne_nil])
  | cons head rest => exact (Spells.identifier first head).foldl_addMember (first + 1) rest

/-- A path is the path of the member expression that is built of it.  A member expression whose
names have no dots has a path, of which an expression with just the same names is built. -/
theorem ofPath_roundTrip :
    (∀ first path, (ofPath first path).dottedPath? = some path) ∧
    ∀ (chain : Node) (names : List String), chain.Spells names →
      (∀ name ∈ names, '.' ∉ name.toList) →
      ∃ path, chain.dottedPath? = some path ∧
        ∀ first others, (ofPath first path).Spells others ↔ others = names := by
  constructor
  · intro first path
    rw [(spells_ofPath first path).dottedPath?_eq, Path.join_segments]
  · intro chain names spells plain
    refine ⟨Path.join names, spells.dottedPath?_eq, fun first others => ?_⟩
    have rebuilt : (ofPath first (Path.join names)).Spells names := by
      have spelled := spells_ofPath first (Path.join names)
      rwa [Path.segments_join spells.ne_nil plain] at spelled
    constructor
    · exact fun again => again.unique rebuilt
    · rintro rfl
      exact rebuilt

/-- Empty names are kept, at the end of a path and between two dots. -/
theorem ofPath_roundTrip_gap :
    (ofPath 5 ".shop..").dottedPath? = some ".shop.." ∧
    ∃ path, (mk 9 (.member (.mk 4 (.member (.mk 6 (.identifier "shop")) "")) "toys")).dottedPath? =
      some path ∧ (ofPath 5 path).Spells ["shop", "", "toys"] := by
  refine ⟨ofPath_roundTrip.1 5 ".shop..", ?_⟩
  obtain ⟨path, has, rebuilt⟩ := ofPath_roundTrip.2 _ _
    (.member 9 (.member 4 (.identifier 6 "shop") "") "toys") (by decide)
  exact ⟨path, has, (rebuilt 5 _).2 rfl⟩

end Node

end DeclLang
