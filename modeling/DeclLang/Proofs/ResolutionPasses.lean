import DeclLang.Proofs.CompilationOutcomes
import DeclLang.Proofs.SolvedTypes
import DeclLang.Proofs.TypeVariants
import DeclLang.Proofs.Worklists
import Mathlib.Data.Finset.Card

/-!
# How many passes resolve a type

**Input.**  A substitution in which no variable leads back to itself, and a type.

**Argument.**  The number of bound variables that a variable leads to is a rank: a variable that is
mentioned leads to fewer of them than the variable whose type mentions it, because it does not lead
to itself.  All ranks are below the number of bindings, so one pass for each binding is enough.  A
pass that changes nothing has met no bound variable, since a variable that is bound to itself would
lead back to itself.

**Results.**
* `Substitution.acyclic_iff`: bindings can be ranked exactly if no variable leads back to itself.
* `Substitution.passes_suffice`: as many passes as there are bindings resolve every type, and a pass
  changes nothing only if the type is resolved.
* `Compilation.onePass_resolves`: a finished substitution needs one pass, for every type and however
  many constraints have failed; so the resolved types of a compilation mention no solved variable,
  and do not depend on how many passes are allowed.
-/

namespace DeclLang

open StaticType

namespace Substitution

/-- The variables that are bound. -/
def boundNames (substitution : Substitution) : List String :=
  substitution.bindings.keys

section BoundNames

variable {substitution other : Substitution} {name : String}

theorem mem_boundNames : name ∈ substitution.boundNames ↔ (substitution.get? name).isSome := by
  unfold boundNames get?
  rw [Std.TreeMap.mem_keys, Std.TreeMap.isSome_getElem?_iff_mem]

theorem length_boundNames : substitution.boundNames.length = substitution.size :=
  Std.TreeMap.length_keys

end BoundNames

section Ranks

variable {substitution : Substitution}

open Classical in
/-- The bound variables that a variable leads to. -/
noncomputable def descendants (substitution : Substitution) (name : String) : Finset String :=
  substitution.boundNames.toFinset.filter fun other =>
    Relation.TransGen substitution.Mentions other name

theorem mem_descendants {name other : String} : other ∈ substitution.descendants name ↔
    (substitution.get? other).isSome ∧ Relation.TransGen substitution.Mentions other name := by
  classical
  rw [descendants, Finset.mem_filter, List.mem_toFinset, mem_boundNames]

/-- If no variable leads back to itself, the number of variables that a variable leads to is a
rank. -/
theorem ranked_descendants
    (noCycle : ∀ name, ¬ Relation.TransGen substitution.Mentions name name) :
    substitution.Ranked fun name => (substitution.descendants name).card where
  bounded name type bound := by
    have among : substitution.descendants name ⊂ substitution.boundNames.toFinset := by
      classical
      refine (Finset.filter_ssubset ..).2 ⟨name, ?_, noCycle name⟩
      rw [List.mem_toFinset, mem_boundNames, bound]
      rfl
    calc (substitution.descendants name).card
      _ < substitution.boundNames.toFinset.card := Finset.card_lt_card among
      _ ≤ substitution.boundNames.length := List.toFinset_card_le _
      _ = substitution.size := length_boundNames
  descends name type bound other mem otherBound := by
    have mentions : substitution.Mentions other name := ⟨type, bound, mem⟩
    have further : substitution.descendants other ⊆ substitution.descendants name := by
      intro inner below
      obtain ⟨innerBound, leads⟩ := mem_descendants.1 below
      exact mem_descendants.2 ⟨innerBound, leads.tail mentions⟩
    refine Finset.card_lt_card ((Finset.ssubset_iff_of_subset further).2 ⟨other, ?_, ?_⟩)
    · exact mem_descendants.2 ⟨otherBound, .single mentions⟩
    · exact fun below => noCycle other (mem_descendants.1 below).2

/-- Bindings can be ranked exactly if no variable leads back to itself. -/
theorem acyclic_iff : substitution.Acyclic ↔
    ∀ name, ¬ Relation.TransGen substitution.Mentions name name :=
  ⟨fun acyclic => acyclic.not_mentions_itself, fun noCycle => ⟨_, ranked_descendants noCycle⟩⟩

end Ranks

section Passes

variable {substitution : Substitution} (acyclic : substitution.Acyclic) {type : StaticType}
include acyclic

/-- More passes than there are bindings make no difference. -/
theorem resolveWithin_of_size_le {passes : Nat} (enough : substitution.size ≤ passes) :
    substitution.resolveWithin passes type = substitution.resolveAll type := by
  obtain ⟨more, rfl⟩ := Nat.exists_eq_add_of_le' enough
  rw [resolveWithin_eq_iterate, Function.iterate_add_apply, ← resolveWithin_eq_iterate,
    ← resolveWithin_eq_iterate]
  exact (settled_resolveAll acyclic type).resolveWithin_eq more

/-- A pass that changes nothing has met no bound variable. -/
theorem settled_of_apply_eq (same : substitution.apply type = type) :
    substitution.Settled type := by
  intro name mem
  have own : (substitution.get? name).getD (.variable name) = .variable name :=
    variable_of_agrees (show (substitution.apply type).Agrees type by rw [same]) mem
  cases found : substitution.get? name with
  | none => rfl
  | some bound =>
    rw [found, Option.getD_some] at own
    have mentions : substitution.Mentions name name :=
      ⟨bound, found, by rw [own, freeVariables]; exact List.mem_singleton_self name⟩
    exact absurd (.single mentions) (acyclic.not_mentions_itself name)

/-- A pass changes nothing only once the type is resolved. -/
theorem resolveWithin_of_apply_eq {passes : Nat}
    (same : substitution.apply (substitution.resolveWithin passes type) =
      substitution.resolveWithin passes type) :
    substitution.resolveWithin passes type = substitution.resolveAll type := by
  have settled := settled_of_apply_eq acyclic same
  rw [← settled.resolveWithin_eq substitution.size, resolveWithin_eq_iterate,
    resolveWithin_eq_iterate substitution passes, ← Function.iterate_add_apply,
    ← resolveWithin_eq_iterate]
  exact resolveWithin_of_size_le acyclic (Nat.le_add_right ..)

end Passes

/-- If no variable leads back to itself through the bindings, as many passes as there are bindings,
and all larger numbers of passes, replace all bound variables of a type all the way.  The result
mentions no bound variable and another pass leaves it as it is; and if a pass leaves a type as it
is, however few passes went before it, the type is this result. -/
theorem passes_suffice {substitution : Substitution}
    (noCycle : ∀ name, ¬ Relation.TransGen substitution.Mentions name name) :
    ∃ bindings : Bindings, bindings.substitution = substitution ∧ ∀ type,
      (∀ passes, substitution.size ≤ passes →
        substitution.resolveWithin passes type = bindings.zonk type) ∧
      (∀ name ∈ (bindings.zonk type).freeVariables, substitution.get? name = none) ∧
      substitution.apply (bindings.zonk type) = bindings.zonk type ∧
      ∀ passes, substitution.apply (substitution.resolveWithin passes type) =
          substitution.resolveWithin passes type →
        substitution.resolveWithin passes type = bindings.zonk type := by
  have acyclic := acyclic_iff.2 noCycle
  refine ⟨⟨substitution, acyclic⟩, rfl, fun type => ?_⟩
  have settled := settled_resolveAll acyclic type
  rw [Bindings.zonk_eq]
  exact ⟨fun passes enough => resolveWithin_of_size_le acyclic enough, settled, settled.apply_eq,
    fun passes same => resolveWithin_of_apply_eq acyclic same⟩

/-- Three bindings, each of which mentions the variable of the next one. -/
def chain : Substitution :=
  (({} : Substitution).bind "?0" (.variable "?1")).bind "?1" (.array (.variable "?2"))
    |>.bind "?2" .number

/-- A function of what the chain begins with. -/
def readsChain : StaticType :=
  .function [(some "xs", .variable "?0")] (.variable "?3")

theorem acyclic_chain : chain.Acyclic := by
  unfold chain
  refine ((acyclic_empty.bind ?_ ?_ ?_).bind ?_ ?_ ?_).bind ?_ ?_ ?_
  all_goals simp [Settled, get?_bind, get?_empty, freeVariables, array, number]

/-- Three passes resolve the chain, and so do more; two are not enough. -/
theorem passes_suffice_chain :
    (∀ name, ¬ Relation.TransGen chain.Mentions name name) ∧
    ∃ bindings : Bindings, bindings.substitution = chain ∧
      chain.resolveWithin 3 readsChain = bindings.zonk readsChain ∧
      chain.resolveWithin 100 readsChain = bindings.zonk readsChain ∧
      bindings.zonk readsChain = .function [(some "xs", .array .number)] (.variable "?3") ∧
      chain.apply (bindings.zonk readsChain) = bindings.zonk readsChain ∧
      chain.resolveWithin 2 readsChain ≠ bindings.zonk readsChain := by
  have noCycle := acyclic_chain.not_mentions_itself
  obtain ⟨bindings, same, resolves⟩ := passes_suffice noCycle
  obtain ⟨enough, -, fixed, -⟩ := resolves readsChain
  have size : chain.size = 3 := by decide +kernel
  have three : chain.resolveWithin 3 readsChain =
      .function [(some "xs", .array .number)] (.variable "?3") := by decide +kernel
  have two : chain.resolveWithin 2 readsChain =
      .function [(some "xs", .array (.variable "?2"))] (.variable "?3") := by decide +kernel
  have resolved := enough 3 (by rw [size])
  refine ⟨noCycle, bindings, same, resolved, enough 100 (by rw [size]; decide),
    resolved.symm.trans three, fixed, ?_⟩
  rw [← resolved, three, two]
  decide

end Substitution

namespace Unifier

open Substitution

/-- However many constraints have failed, the finished substitution binds what the solver has bound,
to types without bound variables, so that one pass is as good as any number of them. -/
theorem finish_onePass (constraints : List Constraint) :
    let unifier := ({} : Unifier).solveAll constraints
    let finished := unifier.finish
    (∀ name, (finished.get? name).isSome = (unifier.substitution.get? name).isSome) ∧
    (∀ name type, finished.get? name = some type →
      ∀ other ∈ type.freeVariables, finished.get? other = none) ∧
    ∀ type, finished.apply (finished.apply type) = finished.apply type ∧
      finished.resolve type = finished.apply type ∧
      ∀ passes ≠ 0, finished.resolveWithin passes type = finished.apply type := by
  intro unifier finished
  have empty : ({} : Unifier).substitution.Acyclic := acyclic_empty
  have acyclic : unifier.substitution.Acyclic := (extends_solveAll empty constraints).acyclic
  refine ⟨fun name => ?_, fun name type found => ?_, fun type => ⟨?_, ?_, ?_⟩⟩
  · rw [show finished.get? name = _ from get?_normalize _ name, Option.isSome_map]
  · rw [show finished.get? name = _ from get?_normalize _ name] at found
    obtain ⟨bound, -, rfl⟩ := Option.map_eq_some_iff.1 found
    exact settled_normalize_resolveAll acyclic bound
  · exact (settled_apply_normalize acyclic type).apply_eq
  · exact resolveWithin_normalize acyclic (by decide) type
  · exact fun passes some => resolveWithin_normalize acyclic some type

end Unifier

namespace Compilation

/-- The same compilation, with another number of passes to resolve a type. -/
def withPasses (compilation : Compilation) (passes : Nat) : Compilation :=
  { compilation with passes }

/-- The number of passes only matters for types that are asked for. -/
theorem ofPrograms_passes (options : Options) (passes : Nat) (rootId : NodeId)
    (programs : List Node) :
    ofPrograms { options with passes } rootId programs =
      (fun compilation => compilation.withPasses passes) <$>
        ofPrograms options rootId programs := by
  simp only [ofPrograms, ofTree, map_bind, map_pure]
  rfl

section Compiled

variable {options : Options} {rootId : NodeId} {programs : List Node} {before after : Reports}
  {compilation : Compilation}
  (compiled : ofPrograms options rootId programs before = (.ok compilation, after))
include compiled

theorem ofPrograms_withPasses (passes : Nat) :
    ofPrograms { options with passes } rootId programs before =
      (.ok (compilation.withPasses passes), after) := by
  rw [ofPrograms_passes, map_eq_pure_bind, Step.bind_ok compiled]
  rfl

theorem passes_of_ofPrograms : compilation.passes = options.passes := by
  have again := compiled.symm.trans (ofPrograms_withPasses compiled options.passes)
  exact congrArg passes (Except.ok.inj (Prod.mk.inj again).1)

/-- With any passes at all, the type of a node mentions no variable that was solved. -/
theorem settled_of_resolvedType? (allowed : options.passes ≠ 0) {id : NodeId} {type : StaticType}
    (resolved : compilation.resolvedType? id = some type) :
    compilation.unifier.substitution.Settled type := by
  have tree := ofTree_of_ofPrograms compiled
  rw [resolvedType?_eq tree (passes_of_ofPrograms compiled ▸ allowed), solvedType?,
    solution_of_ofTree tree] at resolved
  obtain ⟨written, -, rfl⟩ := Option.map_eq_some_iff.1 resolved
  intro name mem
  have unsolved := Substitution.settled_apply_normalize (acyclic_of_ofTree tree) written name mem
  rwa [Substitution.get?_normalize, Option.map_eq_none_iff] at unsolved

/-- All numbers of passes above zero give the same type. -/
theorem resolvedType?_withPasses (allowed : options.passes ≠ 0) {passes : Nat}
    (other : passes ≠ 0) (id : NodeId) :
    (compilation.withPasses passes).resolvedType? id = compilation.resolvedType? id := by
  have own := resolvedType?_eq (ofTree_of_ofPrograms compiled)
    (passes_of_ofPrograms compiled ▸ allowed) id
  have changed := resolvedType?_eq
    (ofTree_of_ofPrograms (ofPrograms_withPasses compiled passes)) other id
  rw [own, changed]
  rfl

end Compiled

/-- One pass resolves every solved type.  However many of the constraints have failed, the finished
substitution binds exactly the variables that the solver has bound, and no bound variable occurs in
a type that a variable is bound to; so applying it twice, or resolving with any number of passes
above zero, is applying it once.  If a compilation may make any passes at all, no type that it
resolves for a node mentions a solved variable, and with another number of passes the programs
compile to the same reports and the same resolved types. -/
theorem onePass_resolves :
    (∀ constraints : List Constraint,
      let unifier := ({} : Unifier).solveAll constraints
      let finished := unifier.finish
      (∀ name, (finished.get? name).isSome = (unifier.substitution.get? name).isSome) ∧
      (∀ name type, finished.get? name = some type →
        ∀ other ∈ type.freeVariables, finished.get? other = none) ∧
      ∀ type, finished.apply (finished.apply type) = finished.apply type ∧
        finished.resolve type = finished.apply type ∧
        ∀ passes ≠ 0, finished.resolveWithin passes type = finished.apply type) ∧
    ∀ (options : Options) (rootId : NodeId) (programs : List Node) (before after : Reports)
      (compilation : Compilation),
      ofPrograms options rootId programs before = (.ok compilation, after) →
      options.passes ≠ 0 →
      (∀ id type, compilation.resolvedType? id = some type →
        ∀ name ∈ type.freeVariables, compilation.unifier.substitution.get? name = none) ∧
      ∀ passes ≠ 0, ∃ other,
        ofPrograms { options with passes } rootId programs before = (.ok other, after) ∧
        ∀ id, other.resolvedType? id = compilation.resolvedType? id := by
  refine ⟨Unifier.finish_onePass, fun options rootId programs before after compilation compiled
    allowed => ⟨fun id type resolved => ?_, fun passes other => ?_⟩⟩
  · exact settled_of_resolvedType? compiled allowed resolved
  · exact ⟨compilation.withPasses passes, ofPrograms_withPasses compiled passes,
      fun id => resolvedType?_withPasses compiled allowed other id⟩

/-- Variables whose types are found in the wrong order, and one with a value of the wrong type. -/
def nestedArrays : Node :=
  .mk 1 (.program
    [.mk 2 (.variableDecl "first" none (some (.mk 3 (.array [.mk 4 (.identifier "second")])))),
      .mk 5 (.variableDecl "second" none (some (.mk 6 (.identifier "third")))),
      .mk 7 (.variableDecl "third" none (some (.mk 8 (.array [])))),
      .mk 9 (.variableDecl "wrong"
        (some (.mk 10 (.functionType [] (.mk 11 (.typeName "Number" [])))))
        (some (.mk 12 (.literal (.boolean true)))))])

/-- The bindings that the solver has made need three passes, but one pass over the finished
substitution is enough, although a constraint has failed. -/
theorem onePass_resolves_nestedArrays :
    ∃ compilation other reports,
      ofPrograms {} 0 [nestedArrays] {} = (.ok compilation, reports) ∧
      compilation.unifier.errors ≠ #[] ∧
      compilation.unifier.substitution.resolveWithin 2 (.variable "?2") =
        .array (.variable "?3") ∧
      compilation.resolvedType? 2 = some (.array (.array (.variable "?4"))) ∧
      compilation.unifier.substitution.get? "?4" = none ∧
      ofPrograms { passes := 1 } 0 [nestedArrays] {} = (.ok other, reports) ∧
      other.resolvedType? 2 = compilation.resolvedType? 2 := by
  have checked : ((ofPrograms {} 0 [nestedArrays] {}).1.toOption.bind fun compilation =>
      some (compilation.unifier.errors.isEmpty,
        compilation.unifier.substitution.resolveWithin 2 (.variable "?2"),
        compilation.resolvedType? 2)) =
      some (false, .array (.variable "?3"), some (.array (.array (.variable "?4")))) := by
    decide +kernel
  obtain ⟨compilation, compiled, holds⟩ := Step.ok_of_toOption checked
  simp only [Option.some.injEq, Prod.mk.injEq] at holds
  obtain ⟨failed, two, resolved⟩ := holds
  obtain ⟨settled, again⟩ := onePass_resolves.2 _ _ _ _ _ _ compiled (by decide)
  obtain ⟨other, recompiled, same⟩ := again 1 (by decide)
  refine ⟨compilation, other, _, compiled, ?_, two, resolved, ?_, recompiled, same 2⟩
  · rintro empty
    rw [empty] at failed
    cases failed
  · exact settled 2 _ resolved "?4" (by simp [array, freeVariables])

end Compilation

end DeclLang
