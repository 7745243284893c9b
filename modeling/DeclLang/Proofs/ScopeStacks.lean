import DeclLang.Names.ScopeStack
import Std.Data.TreeMap.Lemmas

/-!
# What is on a stack of scopes

**Input.**  A stack of scopes, and a property of bindings.

**Results.**
* `ScopeStack.Every`: every binding on the stack has the property.  There is one rule for every way
  of changing a stack, and `ScopeStack.Every.lookup` for what is found on it.
* `ScopeStack.getElem?_flatten`: all frames laid over each other show what can be looked up.
-/

namespace DeclLang

open Std

namespace ScopeStack

variable {α : Type}

/-- Every binding on the stack has the property. -/
def Every (holds : String → α → Prop) (stack : ScopeStack α) : Prop :=
  ∀ frame ∈ stack.frames, ∀ (name : String) (value : α), frame[name]? = some value →
    holds name value

section Every

variable {holds : String → α → Prop} {stack rest : ScopeStack α}

/-- Bindings with the property can be added to a frame of such bindings. -/
theorem insert_every {frame : Frame α}
    (every : ∀ (name : String) (value : α), frame[name]? = some value → holds name value)
    {name : String} {value : α} (new : holds name value) (other : String) (found : α)
    (h : (frame.insert name value)[other]? = some found) : holds other found := by
  rw [TreeMap.getElem?_insert] at h
  split at h
  · rename_i same
    cases h
    exact LawfulEqCmp.eq_of_compare same ▸ new
  · exact every other found h

theorem Every.push (every : stack.Every holds) : stack.push.Every holds := by
  intro frame mem name value found
  rcases List.mem_cons.1 mem with rfl | outer
  · cases found
  · exact every frame outer name value found

theorem Every.pushFrame (every : stack.Every holds) {bindings : List (String × α)}
    (new : ∀ binding ∈ bindings, holds binding.1 binding.2) :
    (stack.pushFrame bindings).Every holds := by
  have filled (start : Frame α)
      (before : ∀ (name : String) (value : α), start[name]? = some value → holds name value) :
      ∀ (name : String) (value : α),
        (bindings.foldl (fun frame binding => frame.insert binding.1 binding.2) start)[name]? =
          some value → holds name value := by
    induction bindings generalizing start with
    | nil => exact before
    | cons binding bindings ih =>
      exact ih (fun other mem => new other (List.mem_cons_of_mem _ mem))
        (start.insert binding.1 binding.2)
        (insert_every before (new binding List.mem_cons_self))
  intro frame mem
  rcases List.mem_cons.1 mem with rfl | outer
  · exact filled ∅ nofun
  · exact every frame outer

theorem Every.pop {frame : Frame α} (every : stack.Every holds)
    (popped : stack.pop = .ok (frame, rest)) : rest.Every holds := by
  unfold ScopeStack.pop at popped
  split at popped
  · cases popped
  · rename_i frames
    cases popped
    intro other mem
    exact every other (frames ▸ List.mem_cons_of_mem _ mem)

theorem Every.bind {name : String} {value : α} {replaced : Option α} (every : stack.Every holds)
    (new : holds name value) (bound : stack.bind name value = .ok (replaced, rest)) :
    rest.Every holds := by
  unfold ScopeStack.bind at bound
  split at bound
  · cases bound
  · rename_i frame outer frames
    cases bound
    intro other mem
    rcases List.mem_cons.1 mem with rfl | mem
    · exact insert_every (every frame (frames ▸ List.mem_cons_self)) new
    · exact every other (frames ▸ List.mem_cons_of_mem _ mem)

/-- What is found on the stack has the property. -/
theorem Every.lookup (every : stack.Every holds) {name : String} {value : α}
    (found : stack.lookup name = some value) : holds name value := by
  obtain ⟨frame, mem, here⟩ := List.exists_of_findSome?_eq_some found
  exact every frame mem name value here

end Every

section Flatten

/-- A frame is laid over others binding by binding. -/
theorem insertMany_toList (visible frame : Frame α) :
    visible.insertMany frame = visible.insertMany frame.toList := by
  unfold TreeMap.insertMany DTreeMap.Const.insertMany DTreeMap.Internal.Impl.Const.insertMany
  simp only [TreeMap.forIn_eq_forIn_toList]

/-- A frame hides what it is laid over. -/
theorem getElem?_insertMany (visible frame : Frame α) (name : String) :
    (visible.insertMany frame)[name]? = frame[name]?.or visible[name]? := by
  rw [insertMany_toList]
  cases found : frame[name]? with
  | some value =>
    rw [TreeMap.getElem?_insertMany_list_of_mem ReflCmp.compare_self TreeMap.distinct_keys_toList
      (TreeMap.mem_toList_iff_getElem?_eq_some.2 found)]
    rfl
  | none =>
    have absent : (frame.toList.map Prod.fst).contains name = false := by
      rw [List.contains_eq_mem, decide_eq_false_iff_not, List.mem_map]
      rintro ⟨⟨other, value⟩, mem, rfl⟩
      rw [TreeMap.mem_toList_iff_getElem?_eq_some.1 mem] at found
      cases found
    rw [TreeMap.getElem?_insertMany_list_of_contains_eq_false absent]
    rfl

/-- All frames laid over each other show what can be looked up. -/
theorem getElem?_flatten (stack : ScopeStack α) (name : String) :
    stack.flatten[name]? = stack.lookup name := by
  obtain ⟨frames⟩ := stack
  unfold flatten lookup
  induction frames with
  | nil => rfl
  | cons frame frames ih =>
    rw [List.foldr_cons, List.findSome?_cons, getElem?_insertMany, ih]
    cases frame[name]? <;> rfl

end Flatten

end ScopeStack

end DeclLang
