import DeclLang.Proofs.BalancedScopes
import DeclLang.Proofs.IntactContexts
import DeclLang.Proofs.Registrations

/-!
# Which programs are refused

**Input.**  Any programs, any options and any identity for the new root.

**Results.**
* `joinPrograms_error_iff`: joining fails at the first root that is not a program.
* `Compilation.ofPrograms_error_iff`: a compilation fails exactly for the three reasons that
  `Refusal` lists, each of which takes precedence over the later ones.  Scopes never fail, and a
  compilation that fails has reported nothing.
-/

namespace DeclLang

namespace Node

/-- The node is a program. -/
def IsProgram (node : Node) : Prop :=
  ∃ declarations, node.kind = .program declarations

end Node

/-- The tree of several programs: their declarations, in order, below a new root. -/
def joined (rootId : NodeId) (programs : List Node) : Node :=
  .mk rootId (.program (programs.flatMap Node.children))

section Joining

variable {rootId : NodeId} {programs : List Node}

/-- A joined tree is made of its root and of what is below the roots of the programs. -/
theorem mem_preorder_joined {node : Node} (mem : node ∈ (joined rootId programs).preorder) :
    node = joined rootId programs ∨ ∃ program ∈ programs, node ∈ program.preorder := by
  rw [Node.preorder_eq, List.mem_cons] at mem
  refine mem.imp_right fun below => ?_
  obtain ⟨child, inside, below⟩ := List.mem_flatMap.1 below
  obtain ⟨program, given, inside⟩ := List.mem_flatMap.1 inside
  exact ⟨program, given, Node.mem_preorder_of_mem_children inside below⟩

theorem joinedDeclarations_cons {program : Node} (h : program.IsProgram) :
    joinedDeclarations (program :: programs) =
      (joinedDeclarations programs).map fun declarations => program.children ++ declarations := by
  obtain ⟨declarations, isProgram⟩ := h
  have children : program.children = declarations := by
    simp [Node.children, isProgram, Kind.children]
  unfold joinedDeclarations
  rw [children, List.mapM_cons, isProgram]
  cases programs.mapM (_ : Node → Except SyntaxError (List Node)) <;> rfl

theorem joinedDeclarations_other {root : Node} (other : ¬ root.IsProgram) :
    joinedDeclarations (root :: programs) = .error (.notAProgram root.kind.description) := by
  obtain ⟨id, kind⟩ := root
  cases kind with
  | program declarations => exact absurd ⟨declarations, rfl⟩ other
  | _ => rfl

theorem joinPrograms_ok (all : ∀ program ∈ programs, program.IsProgram) :
    joinPrograms rootId programs = .ok (joined rootId programs) := by
  have lists : joinedDeclarations programs = .ok (programs.flatMap Node.children) := by
    induction programs with
    | nil => rfl
    | cons program programs ih =>
      rw [joinedDeclarations_cons (all program List.mem_cons_self),
        ih fun other mem => all other (List.mem_cons_of_mem _ mem)]
      rfl
  unfold joinPrograms
  rw [lists]
  rfl

theorem joinPrograms_error {before after : List Node} {root : Node}
    (elders : ∀ program ∈ before, program.IsProgram) (other : ¬ root.IsProgram) :
    joinPrograms rootId (before ++ root :: after) =
      .error (.notAProgram root.kind.description) := by
  have fails : joinedDeclarations (before ++ root :: after) =
      .error (.notAProgram root.kind.description) := by
    induction before with
    | nil => exact joinedDeclarations_other other
    | cons program before ih =>
      rw [List.cons_append, joinedDeclarations_cons (elders program List.mem_cons_self),
        ih fun other mem => elders other (List.mem_cons_of_mem _ mem)]
      rfl
  unfold joinPrograms
  rw [fails]
  rfl

/-- Either all roots are programs, or there is a first one that is not. -/
theorem programs_or_first (programs : List Node) :
    (∀ program ∈ programs, program.IsProgram) ∨
      ∃ before root after, programs = before ++ root :: after ∧
        (∀ program ∈ before, program.IsProgram) ∧ ¬ root.IsProgram := by
  induction programs with
  | nil => exact .inl nofun
  | cons program programs ih =>
    by_cases here : program.IsProgram
    · rcases ih with all | ⟨before, root, after, rfl, all, other⟩
      · exact .inl (List.forall_mem_cons.2 ⟨here, all⟩)
      · exact .inr ⟨program :: before, root, after, rfl, List.forall_mem_cons.2 ⟨here, all⟩, other⟩
    · exact .inr ⟨[], program, programs, rfl, nofun, here⟩

end Joining

/-- The reasons for which programs are refused, with the error that says so. -/
inductive Refusal (rootId : NodeId) (programs : List Node) : CompileError → Prop
  /-- A root is not a program, and all before it are. -/
  | notAProgram {before after : List Node} {root : Node}
    (split : programs = before ++ root :: after)
    (elders : ∀ program ∈ before, program.IsProgram) (other : ¬ root.IsProgram) :
    Refusal rootId programs (.malformed (.notAProgram root.kind.description))
  /-- All roots are programs, and in preorder a node has an identity that was there before. -/
  | duplicateNodeId {before : List Node} {node : Node}
    (all : ∀ program ∈ programs, program.IsProgram)
    (again : FirstRepetition Node.id (joined rootId programs).preorder before node) :
    Refusal rootId programs (.malformed (.duplicateNodeId node.id))
  /-- The tree is well formed, and a registration has the kind and the path of an earlier one. -/
  | collision {before : List Registration} {first second : Registration}
    (all : ∀ program ∈ programs, program.IsProgram)
    (distinct : (joined rootId programs).Distinct)
    (again : FirstRepetition Registration.key ((joined rootId programs).registrations []) before
      second)
    (elder : first ∈ before) (same : first.key = second.key) :
    Refusal rootId programs
      (.collision ⟨second.kind, second.path, first.id, second.id⟩)

namespace Compilation

variable {options : Options} {root : Node} {focus : Option NodeId} {reports : Reports}

theorem ofTree_malformed {error : SyntaxError} (failed : NodeIndex.build root = .error error) :
    ofTree options root focus reports = (.error (.malformed error), reports) := by
  have fails : ofExcept .malformed (NodeIndex.build root) reports =
      (.error (.malformed error), reports) := by
    rw [failed]
    rfl
  exact Step.bind_error fails

theorem ofTree_collision {index : NodeIndex} {collision : Collision}
    (indexed : NodeIndex.build root = .ok index)
    (failed : Namespace.build root = .error collision) :
    ofTree options root focus reports = (.error (.collision collision), reports) := by
  have indexes : ofExcept .malformed (NodeIndex.build root) reports = (.ok index, reports) := by
    rw [indexed]
    rfl
  have fails : ofExcept .collision (Namespace.build root) reports =
      (.error (.collision collision), reports) := by
    rw [failed]
    rfl
  unfold ofTree
  rw [Step.bind_ok indexes]
  exact Step.bind_error fails

variable {rootId : NodeId} {programs : List Node}

theorem ofPrograms_of_all (all : ∀ program ∈ programs, program.IsProgram) :
    ofPrograms options rootId programs reports =
      ofTree options (joined rootId programs) none reports := by
  have joins : ofExcept .malformed (joinPrograms rootId programs) reports =
      (.ok (joined rootId programs), reports) := by
    rw [joinPrograms_ok all]
    rfl
  exact Step.bind_ok joins

/-- Compiling programs is compiling their joined tree. -/
theorem ofTree_of_ofPrograms {compilation : Compilation} {after : Reports}
    (compiled : ofPrograms options rootId programs reports = (.ok compilation, after)) :
    ofTree options (joined rootId programs) none reports = (.ok compilation, after) := by
  rcases programs_or_first programs with all | ⟨before, root, others, rfl, elders, other⟩
  · rwa [ofPrograms_of_all all] at compiled
  · have fails : ofExcept .malformed (joinPrograms rootId (before ++ root :: others)) reports =
        (.error (.malformed (.notAProgram root.kind.description)), reports) := by
      rw [joinPrograms_error elders other]
      rfl
    rw [ofPrograms, Step.bind_error fails] at compiled
    cases compiled

/-- Programs that there is a reason to refuse are refused with its error, and nothing is
reported. -/
theorem ofPrograms_refused {error : CompileError} (refusal : Refusal rootId programs error) :
    ofPrograms options rootId programs reports = (.error error, reports) := by
  cases refusal with
  | @notAProgram before after root split elders other =>
    subst split
    have fails : ofExcept .malformed (joinPrograms rootId (before ++ root :: after)) reports =
        (.error (.malformed (.notAProgram root.kind.description)), reports) := by
      rw [joinPrograms_error elders other]
      rfl
    exact Step.bind_error fails
  | duplicateNodeId all again =>
    rw [ofPrograms_of_all all]
    exact ofTree_malformed (NodeIndex.build_error_iff.2 ⟨_, _, again, rfl⟩)
  | collision all distinct again elder same =>
    rw [ofPrograms_of_all all]
    obtain ⟨index, indexed⟩ := NodeIndex.build_ok distinct
    exact ofTree_collision indexed
      (Namespace.build_error_iff.2 ⟨_, _, _, again, elder, same, rfl⟩)

/-- Programs that are not compiled are refused for a reason. -/
theorem refusal_or_compiled (options : Options) (rootId : NodeId) (programs : List Node)
    (reports : Reports) :
    (∃ error, Refusal rootId programs error) ∨
      ∃ compilation after,
        ofPrograms options rootId programs reports = (.ok compilation, after) := by
  rcases programs_or_first programs with all | ⟨before, root, after, split, elders, other⟩
  · cases indexed : NodeIndex.build (joined rootId programs) with
    | error error =>
      obtain ⟨before, node, again, -⟩ := NodeIndex.build_error_iff.1 indexed
      exact .inl ⟨_, .duplicateNodeId all again⟩
    | ok index =>
      cases named : Namespace.build (joined rootId programs) with
      | error collision =>
        obtain ⟨before, first, second, again, elder, same, -⟩ :=
          Namespace.build_error_iff.1 named
        exact .inl ⟨_, .collision all (NodeIndex.distinct_of_build indexed) again elder same⟩
      | ok names =>
        obtain ⟨scope, diagnostics, resolved⟩ :=
          Scope.build_balanced (joined rootId programs) names none
        obtain ⟨compilation, after, compiled, -⟩ :=
          ofTree_ok indexed named (congrArg Prod.fst resolved) options reports
        rw [ofPrograms_of_all all]
        exact .inr ⟨compilation, after, compiled⟩
  · exact .inl ⟨_, .notAProgram split elders other⟩

/-- Programs are refused exactly for the reasons that there are: a root that is not a program, or
else an identity that occurs twice, or else two declarations with the same kind and path.  Scopes
never find a stack empty, for whatever tree, namespace and focus; and when programs are refused,
nothing has been reported. -/
theorem ofPrograms_error_iff (options : Options) (rootId : NodeId) (programs : List Node)
    (reports : Reports) :
    (∀ error, (ofPrograms options rootId programs reports).1 = .error error ↔
      Refusal rootId programs error) ∧
    (∀ error, (ofPrograms options rootId programs reports).1 = .error error →
      (ofPrograms options rootId programs reports).2 = reports) ∧
    ∀ (root : Node) (names : Namespace) (focus : Option NodeId),
      ∃ scope, (Scope.build root names focus).1 = .ok scope := by
  have refused (error : CompileError)
      (failed : (ofPrograms options rootId programs reports).1 = .error error) :
      Refusal rootId programs error := by
    rcases refusal_or_compiled options rootId programs reports with
      ⟨reason, refusal⟩ | ⟨compilation, after, compiled⟩
    · rw [ofPrograms_refused refusal] at failed
      cases failed
      exact refusal
    · rw [compiled] at failed
      cases failed
  refine ⟨fun error => ⟨refused error, fun refusal => ?_⟩, fun error failed => ?_,
    fun root names focus => ?_⟩
  · rw [ofPrograms_refused refusal]
  · rw [ofPrograms_refused (refused error failed)]
  · obtain ⟨scope, diagnostics, built⟩ := Scope.build_balanced root names focus
    exact ⟨scope, congrArg Prod.fst built⟩

/-- The three reasons, each in the smallest programs that have it. -/
theorem ofPrograms_error_iff_smallest :
    (ofPrograms {} 0 [.mk 1 (.program []), .mk 2 .placeholder] {}).1 =
        .error (.malformed (.notAProgram "placeholder")) ∧
      (ofPrograms {} 0 [.mk 1 (.program [.mk 0 .placeholder])] {}).1 =
        .error (.malformed (.duplicateNodeId 0)) ∧
      (ofPrograms {} 0 [.mk 1 (.program [.mk 2 (.variableDecl "x" none none)]),
          .mk 3 (.program [.mk 4 (.variableDecl "x" none none)])] {}).1 =
        .error (.collision ⟨.value, "x", 2, 4⟩) := by
  have program (id : NodeId) (declarations : List Node) :
      (Node.mk id (.program declarations)).IsProgram := ⟨declarations, rfl⟩
  refine ⟨((ofPrograms_error_iff _ _ _ _).1 _).2 ?_, ((ofPrograms_error_iff _ _ _ _).1 _).2 ?_,
    ((ofPrograms_error_iff _ _ _ _).1 _).2 ?_⟩
  · have split : [Node.mk 1 (.program []), .mk 2 .placeholder] =
        [.mk 1 (.program [])] ++ .mk 2 .placeholder :: [] := rfl
    exact .notAProgram split (by simpa using program 1 []) nofun
  · have again : FirstRepetition Node.id
        (joined 0 [.mk 1 (.program [.mk 0 .placeholder])]).preorder
        [.mk 0 (.program [.mk 0 .placeholder])] (.mk 0 .placeholder) := by
      refine ⟨⟨[], ?_⟩, by simp, by simp⟩
      simp [joined, Node.preorder_eq, Node.descendants, Node.children, Kind.children]
    exact .duplicateNodeId (by simpa using program 1 _) again
  · have again : FirstRepetition Registration.key
        ((joined 0 [.mk 1 (.program [.mk 2 (.variableDecl "x" none none)]),
          .mk 3 (.program [.mk 4 (.variableDecl "x" none none)])]).registrations [])
        [⟨.value, "x", 2⟩] ⟨.value, "x", 4⟩ := by
      refine ⟨⟨[], ?_⟩, by simp, by simp [Registration.key]⟩
      simp [joined, Node.registrations_eq, Node.entered, Node.left, Node.opensPaths,
        Node.qualifier?, Node.children, Kind.children, Path.qualify, Path.join,
        List.intercalate]
    refine .collision (by simpa using ⟨program 1 _, program 3 _⟩) ?_ again
      (List.mem_singleton.2 rfl) rfl
    simp [joined, Node.Distinct, Node.identities_eq, Node.children, Kind.children]

end Compilation

end DeclLang
