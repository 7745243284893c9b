import DeclLang.Syntax.Node

/-!
# Dotted paths

A member expression over an identifier, `a.b.c`, denotes a dotted path.  `Node.dottedPath?` reads
the path off the tree and `Node.ofPath` builds the member expression of a path.  In between,
`Path.segments` cuts a path at its dots and `Path.join` puts it together again
(`Path.join_segments`).
-/

namespace DeclLang

/-- The path that an identifier, or a member expression over an identifier, denotes. -/
def Node.dottedPath? (node : Node) : Option String :=
  match _h : node.kind with
  | .identifier name => some name
  | .member object name => (dottedPath? object).map fun path => path ++ "." ++ name
  | _ => none
termination_by sizeOf node
decreasing_by exact Node.sizeOf_lt_of_mem_children (by simp [Node.children, Kind.children, _h])

namespace Path

/-- Cuts a text at its dots.  There is always at least one segment, perhaps an empty one. -/
def cut : List Char → List (List Char)
  | [] => [[]]
  | c :: rest =>
    if c = '.' then [] :: cut rest
    else match cut rest with
      | [] => [[c]]
      | segment :: segments => (c :: segment) :: segments

/-- The segments of a path. -/
def segments (path : String) : List String :=
  (cut path.toList).map String.ofList

/-- The path with the given segments. -/
def join (segments : List String) : String :=
  String.ofList (List.intercalate ['.'] (segments.map String.toList))

/-- The path of a name inside the declarations with the given names, the outermost first. -/
def qualify (enclosing : List String) (name : String) : String :=
  let owner := join enclosing
  if owner.isEmpty then name else owner ++ "." ++ name

/-- The name of a direct member of `owner`, if the path belongs to one. -/
def memberName? (owner path : String) : Option String :=
  let start := owner.toList ++ ['.']
  let rest := path.toList.drop start.length
  if start.isPrefixOf path.toList && !rest.contains '.' then some (String.ofList rest) else none

theorem cut_ne_nil : ∀ text : List Char, cut text ≠ []
  | [] => by simp [cut]
  | c :: rest => by
    by_cases h : c = '.'
    · simp [cut, h]
    · rw [cut, if_neg h]
      split <;> simp

private theorem intercalate_cons_of_ne_nil {α : Type} (separator head : List α)
    {tail : List (List α)} (h : tail ≠ []) :
    List.intercalate separator (head :: tail) =
      head ++ separator ++ List.intercalate separator tail := by
  cases tail with
  | nil => exact absurd rfl h
  | cons next tail => simp [List.intercalate, List.intersperse]

theorem intercalate_cut : ∀ text : List Char, List.intercalate ['.'] (cut text) = text
  | [] => by simp [cut, List.intercalate]
  | c :: rest => by
    have ih := intercalate_cut rest
    by_cases h : c = '.'
    · rw [cut, if_pos h, intercalate_cons_of_ne_nil _ _ (cut_ne_nil rest), ih, h]
      rfl
    · rw [cut, if_neg h]
      cases hcut : cut rest with
      | nil => exact absurd hcut (cut_ne_nil rest)
      | cons segment segments =>
        rw [hcut] at ih
        cases segments with
        | nil => simpa [List.intercalate] using ih
        | cons next segments =>
          rw [intercalate_cons_of_ne_nil _ _ (by simp)] at ih ⊢
          simp only [List.cons_append, ih]

/-- A path is recovered from its segments. -/
theorem join_segments (path : String) : join (segments path) = path := by
  have h : (cut path.toList).map (String.toList ∘ String.ofList) = cut path.toList := by
    simp [Function.comp_def]
  rw [join, segments, List.map_map, h, intercalate_cut, String.ofList_toList]

end Path

namespace Node

/-- Extends a member expression by one more name.  New nodes are numbered upwards. -/
def addMember (chain : Node × NodeId) (name : String) : Node × NodeId :=
  (mk chain.2 (.member chain.1 name), chain.2 + 1)

/-- The member expression over an identifier that denotes a path, its nodes numbered upwards from
`first` on. -/
def ofPath (first : NodeId) (path : String) : Node :=
  match Path.segments path with
  | [] => mk first (.identifier "")
  | head :: rest => (rest.foldl addMember (mk first (.identifier head), first + 1)).1

/-- The names along a member expression, from the outermost member to the innermost object. -/
def memberNames (node : Node) : List String :=
  match _h : node.kind with
  | .identifier name => [name]
  | .member object name => name :: memberNames object
  | _ => []
termination_by sizeOf node
decreasing_by exact sizeOf_lt_of_mem_children (by simp [children, Kind.children, _h])

end Node

end DeclLang
