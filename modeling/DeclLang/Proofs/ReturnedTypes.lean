import DeclLang.Proofs.Moments

/-!
# The types of what is given back

Outside of functions nothing is demanded of what a `return` brings, so no typing rule says that it
has a type.

**Input.**  A tree with distinct identities.

**Results.**
* `Inference.returned_leave`: when a `return` is left, what it brings has a type.
* `Typing.returned_infer`: so what a `return` brings has a type after inference.
-/

namespace DeclLang

namespace Inference

/-- When a `return` is left, what it brings has a type. -/
theorem returned_leave {environment : Environment} {id : NodeId} {expression : Node}
    (state : State) :
    ∃ type, (leave environment (.mk id (.returnStatement (some expression)))
      state).2.typing.nodes[expression.id]? = some type := by
  cases ran : leave environment (.mk id (.returnStatement (some expression))) state with
  | mk done after =>
    obtain ⟨type?, left, found, ran⟩ := bind_inv ran
    obtain ⟨returned, middle, typed, found⟩ := bind_inv found
    have first : Extends environment expression [expression.id] [] state middle ∧
        middle.typing.nodes[expression.id]? = some returned :=
      typeOf_inv (List.mem_singleton_self _) typed
    have brought : type? = some .unit ∧ left.typing.nodes = middle.typing.nodes := by
      obtain ⟨_, _, got, found⟩ := bind_inv found
      cases got
      split at found
      · obtain ⟨_, _, demanded, found⟩ := bind_inv found
        cases demanded
        cases found
        exact ⟨rfl, rfl⟩
      · cases found
        exact ⟨rfl, rfl⟩
    obtain ⟨rfl, same⟩ := brought
    have last : after.typing.nodes = middle.typing.nodes.insert id .unit := by
      obtain ⟨_, _, got, ran⟩ := bind_inv ran
      cases got
      split at ran
      · obtain ⟨_, _, erased, ran⟩ := bind_inv ran
        cases erased
        obtain ⟨_, _, demanded, ran⟩ := bind_inv ran
        cases demanded
        cases ran
        exact congrArg (fun nodes => nodes.insert id StaticType.unit) same
      · cases ran
        exact congrArg (fun nodes => nodes.insert id StaticType.unit) same
    rw [last, Std.TreeMap.getElem?_insert, first.2]
    split
    · exact ⟨_, rfl⟩
    · exact ⟨_, rfl⟩

end Inference

open Inference

/-- What a `return` brings has a type. -/
theorem Typing.returned_infer {root : Node} {index : NodeIndex} (distinct : root.Distinct)
    (built : NodeIndex.build root = .ok index) (scope : Scope) (supply : VariableSupply) :
    ∀ place ∈ reached none root, ∀ expression,
      place.2.kind = .returnStatement (some expression) →
        ∃ type, (Typing.infer root scope index supply).nodes[expression.id]? = some type := by
  rintro ⟨function?, id, kind⟩ mem expression rfl
  obtain ⟨earlier, later, split⟩ := exists_split mem
  obtain ⟨type, known⟩ := @returned_leave { scope, index } id expression
    (Environment.run { scope, index } earlier (State.initial supply))
  rw [Typing.infer_eq_run]
  exact ⟨type, (Typing.grows_infer scope supply distinct built split).nodes _ _ known⟩

end DeclLang
