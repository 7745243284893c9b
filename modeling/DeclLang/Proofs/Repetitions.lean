import Mathlib.Data.List.Induction
import DeclLang.Proofs.Trees

/-!
# The first repetition in a list

Indexes and namespaces are filled entry by entry, and refuse the first entry that is already
there.

**Input.**  A list, and the key by which its elements are told apart.

**Results.**
* `exists_firstRepetition`: a list has a first repetition exactly if its keys are not distinct, and
  `FirstRepetition.unique`: it has at most one.
* `foldlM_error_inv`: a list that cannot be added to the end has a first element that was refused.
* `NodeIndex.build_error_iff`: building an index fails with the first identity of the tree, in
  preorder, that comes again.
-/

namespace DeclLang

section Repetitions

variable {α β : Type} {key : α → β} {l : List α}

/-- The element at the end of the prefix is the first one whose key occurs before it. -/
structure FirstRepetition (key : α → β) (l before : List α) (x : α) : Prop where
  split : ∃ after, l = before ++ x :: after
  distinct : (before.map key).Nodup
  again : key x ∈ before.map key

/-- A list has a first repetition exactly if its keys are not distinct. -/
theorem exists_firstRepetition :
    (∃ before x, FirstRepetition key l before x) ↔ ¬ (l.map key).Nodup := by
  constructor
  · rintro ⟨before, x, ⟨after, rfl⟩, -, again⟩ distinct
    rw [List.map_append, List.map_cons, List.nodup_append] at distinct
    exact distinct.2.2 _ again _ List.mem_cons_self rfl
  · intro repeated
    induction l using List.reverseRecOn with
    | nil => exact absurd List.nodup_nil repeated
    | append_singleton l last ih =>
      by_cases distinct : (l.map key).Nodup
      · refine ⟨l, last, ⟨[], rfl⟩, distinct, ?_⟩
        by_contra fresh
        refine repeated ?_
        rw [List.map_append, List.nodup_append]
        refine ⟨distinct, by simp, fun found mem other isLast => ?_⟩
        rw [List.map_singleton, List.mem_singleton] at isLast
        rintro rfl
        exact fresh (isLast ▸ mem)
      · obtain ⟨before, x, ⟨after, rfl⟩, first, again⟩ := ih distinct
        exact ⟨before, x, ⟨after ++ [last], by simp⟩, first, again⟩

/-- The first repetition is not before itself. -/
theorem FirstRepetition.le_length {before other : List α} {x y : α}
    (first : FirstRepetition key l before x) (second : FirstRepetition key l other y) :
    before.length ≤ other.length := by
  obtain ⟨after, whole⟩ := first.split
  obtain ⟨rest, rfl⟩ := second.split
  by_contra longer
  -- The whole of the shorter split would lie within the distinct part of the longer one.
  have inside : other ++ [y] <+: before := by
    have left : other ++ [y] <+: other ++ y :: rest := ⟨rest, by simp⟩
    have right : before <+: other ++ y :: rest := ⟨x :: after, whole.symm⟩
    refine List.prefix_of_prefix_length_le left right ?_
    simp only [List.length_append, List.length_singleton]
    omega
  have distinct := first.distinct.sublist (inside.sublist.map key)
  rw [List.map_append, List.nodup_append] at distinct
  exact distinct.2.2 _ second.again _ (by simp) rfl

/-- A list has at most one first repetition. -/
theorem FirstRepetition.unique {before other : List α} {x y : α}
    (first : FirstRepetition key l before x) (second : FirstRepetition key l other y) :
    before = other ∧ x = y := by
  have length : before.length = other.length :=
    Nat.le_antisymm (first.le_length second) (second.le_length first)
  obtain ⟨after, whole⟩ := first.split
  obtain ⟨rest, rfl⟩ := second.split
  obtain ⟨same, tails⟩ := List.append_inj whole.symm length
  injection tails with here
  exact ⟨same, here⟩

end Repetitions

/-- Where a list cannot be added to the end, there is a first element that was refused. -/
theorem foldlM_error_inv {ε α σ : Type} {add : σ → α → Except ε σ} {l : List α} {start : σ}
    {error : ε} (h : l.foldlM add start = .error error) :
    ∃ before x after reached, l = before ++ x :: after ∧
      before.foldlM add start = .ok reached ∧ add reached x = .error error := by
  induction l generalizing start with
  | nil => cases h
  | cons first l ih =>
    rw [List.foldlM_cons] at h
    cases added : add start first with
    | error refusal =>
      rw [added] at h
      cases h
      exact ⟨[], first, l, start, rfl, rfl, added⟩
    | ok next =>
      rw [added] at h
      obtain ⟨before, x, after, reached, rfl, ok, refused⟩ := ih h
      refine ⟨first :: before, x, after, reached, rfl, ?_, refused⟩
      rw [List.foldlM_cons, added]
      exact ok

namespace NodeIndex

theorem firstRepetition_of_build_error {root : Node} {error : SyntaxError}
    (failed : build root = .error error) :
    ∃ before node, FirstRepetition Node.id root.preorder before node ∧
      error = .duplicateNodeId node.id := by
  obtain ⟨before, ⟨parent?, node⟩, after, full, whole, ok, refused⟩ := foldlM_error_inv failed
  obtain ⟨distinct, -⟩ := nodup_of_foldlM_insert ok
  simp only [insert] at refused
  split at refused
  · rename_i known
    cases refused
    refine ⟨before.map Prod.snd, node, ⟨⟨after.map Prod.snd, ?_⟩, ?_, ?_⟩, rfl⟩
    · rw [← Node.map_snd_withParents none root, whole]
      simp
    · rw [List.map_map]
      exact distinct
    · rw [Std.TreeMap.contains_eq_isSome_getElem?] at known
      obtain ⟨found, there⟩ := Option.isSome_iff_exists.1 known
      rcases get?_foldlM_insert ok there with ⟨mem, same⟩ | none
      · exact List.mem_map.2 ⟨found, mem, same⟩
      · cases none
  · cases refused

/-- Building an index fails with the identity of the first node, in preorder, whose identity was
there before. -/
theorem build_error_iff {root : Node} {error : SyntaxError} :
    build root = .error error ↔
      ∃ before node, FirstRepetition Node.id root.preorder before node ∧
        error = .duplicateNodeId node.id := by
  constructor
  · exact firstRepetition_of_build_error
  · rintro ⟨before, node, first, rfl⟩
    cases built : build root with
    | ok index => exact absurd (distinct_of_build built) (exists_firstRepetition.1 ⟨_, _, first⟩)
    | error error =>
      obtain ⟨other, found, second, rfl⟩ := firstRepetition_of_build_error built
      obtain ⟨-, rfl⟩ := first.unique second
      rfl

end NodeIndex

end DeclLang
