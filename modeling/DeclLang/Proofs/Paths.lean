import DeclLang.Syntax.Path

/-!
# Paths and their names

**Results.**
* `Path.memberName?_eq_some_iff`: the direct members of a declaration are one name further.
* `Path.join_inj`: a path has one sequence of names, if no name has a dot in it.
* `Path.qualify_eq_join`: the path of a name inside of declarations is the path of all their names.
-/

namespace DeclLang

namespace Path

/-- A name that is not empty and has no dot in it. -/
def IsName (name : String) : Prop :=
  name ≠ "" ∧ '.' ∉ name.toList

instance (name : String) : Decidable (IsName name) :=
  inferInstanceAs (Decidable (name ≠ "" ∧ '.' ∉ name.toList))

/-- The direct members of a declaration are one name further. -/
theorem memberName?_eq_some_iff {owner path name : String} :
    memberName? owner path = some name ↔
      path = owner ++ "." ++ name ∧ '.' ∉ name.toList := by
  have start : (owner ++ ".").toList = owner.toList ++ ['.'] := by
    rw [String.toList_append]
    rfl
  unfold memberName?
  dsimp only
  constructor
  · intro found
    split at found
    · rename_i both
      simp only [Bool.and_eq_true, List.isPrefixOf_iff_prefix, Bool.not_eq_true',
        List.contains_eq_mem, decide_eq_false_iff_not] at both
      obtain ⟨⟨rest, whole⟩, plain⟩ := both
      rw [← whole, List.drop_left] at found plain
      cases found
      refine ⟨String.toList_injective ?_, by simpa using plain⟩
      rw [String.toList_append, start, ← whole, String.toList_ofList]
    · cases found
  · rintro ⟨rfl, plain⟩
    rw [String.toList_append, start, List.drop_left, if_pos, String.ofList_toList]
    simp [plain]

theorem cut_append_dot {text : List Char} (plain : '.' ∉ text) (rest : List Char) :
    cut (text ++ '.' :: rest) = text :: cut rest := by
  induction text with
  | nil => simp [cut]
  | cons c text ih =>
    rw [List.mem_cons, not_or] at plain
    rw [List.cons_append, cut, if_neg (Ne.symm plain.1), ih plain.2]

theorem cut_eq_self {text : List Char} (plain : '.' ∉ text) : cut text = [text] := by
  induction text with
  | nil => rfl
  | cons c text ih =>
    rw [List.mem_cons, not_or] at plain
    rw [cut, if_neg (Ne.symm plain.1), ih plain.2]

/-- The segments of a path are the names that it was put together from. -/
theorem segments_join {names : List String} (some : names ≠ [])
    (plain : ∀ name ∈ names, '.' ∉ name.toList) : segments (join names) = names := by
  have cuts : cut (List.intercalate ['.'] (names.map String.toList)) =
      names.map String.toList := by
    induction names with
    | nil => exact absurd rfl some
    | cons name names ih =>
      have first := plain name List.mem_cons_self
      cases names with
      | nil => simpa [List.intercalate] using cut_eq_self first
      | cons next names =>
        have rest := ih (List.cons_ne_nil _ _) fun other mem =>
          plain other (List.mem_cons_of_mem _ mem)
        have split : List.intercalate ['.'] ((name :: next :: names).map String.toList) =
            name.toList ++ '.' :: List.intercalate ['.'] ((next :: names).map String.toList) := by
          simp [List.intercalate]
        rw [split, cut_append_dot first, rest]
        rfl
  rw [segments, join, String.toList_ofList, cuts, List.map_map]
  simp [Function.comp_def]

theorem join_eq_empty_iff {names : List String} (proper : ∀ name ∈ names, IsName name) :
    join names = "" ↔ names = [] := by
  constructor
  · intro empty
    cases names with
    | nil => rfl
    | cons name names =>
      have whole := segments_join (List.cons_ne_nil name names) fun other mem =>
        (proper other mem).2
      rw [empty] at whole
      have none : "" ∈ name :: names := by
        rw [← whole]
        decide
      exact absurd rfl (proper "" none).1
  · rintro rfl
    rfl

/-- A path has one sequence of names. -/
theorem join_inj {names others : List String} (some : names ≠ []) (someOthers : others ≠ [])
    (plain : ∀ name ∈ names, '.' ∉ name.toList) (plainOthers : ∀ name ∈ others, '.' ∉ name.toList)
    (same : join names = join others) : names = others := by
  rw [← segments_join some plain, same, segments_join someOthers plainOthers]

/-- The path of one name more. -/
theorem join_concat {names : List String} (some : names ≠ []) (name : String) :
    join (names ++ [name]) = join names ++ "." ++ name := by
  have characters : List.intercalate ['.'] ((names ++ [name]).map String.toList) =
      List.intercalate ['.'] (names.map String.toList) ++ '.' :: name.toList := by
    induction names with
    | nil => exact absurd rfl some
    | cons first names ih =>
      cases names with
      | nil => simp [List.intercalate]
      | cons next names =>
        have rest := ih (List.cons_ne_nil _ _)
        simp only [List.cons_append, List.map_cons, List.intercalate, List.intersperse,
          List.flatten_cons, List.append_assoc] at rest ⊢
        rw [rest]
  rw [join, characters, join]
  exact String.toList_injective (by simp)

/-- The path of a name inside of declarations. -/
theorem qualify_eq_join {enclosing : List String} (proper : ∀ name ∈ enclosing, IsName name)
    (name : String) : qualify enclosing name = join (enclosing ++ [name]) := by
  unfold qualify
  dsimp only
  by_cases none : enclosing = []
  · subst none
    have nothing : (join []).isEmpty = true := rfl
    rw [if_pos nothing]
    exact String.toList_injective (by simp [join, List.intercalate])
  · rw [if_neg, join_concat none]
    rw [String.isEmpty_iff, join_eq_empty_iff proper]
    exact none

end Path

end DeclLang
