import DeclLang.Proofs.DataEvaluation

/-!
# Failures of operators, native functions and alignment

**Results.**  What is computed from values alone never fails because evaluations are nested too
deeply: neither an operator (`Operator.apply_error`), nor a native function (`Builtin.call_error`),
nor the alignment of arguments to slots (`Call.receive_error`).
-/

namespace DeclLang

/-- If a list of steps fails, one of them does. -/
theorem exists_of_mapM_error {ε α β : Type} {items : List α} {step : α → Except ε β} {error : ε}
    (h : items.mapM step = .error error) : ∃ item ∈ items, step item = .error error := by
  induction items with
  | nil => cases h
  | cons item items ih =>
    rw [List.mapM_cons] at h
    cases first : step item with
    | error other =>
      rw [first] at h
      cases h
      exact ⟨item, List.mem_cons_self, first⟩
    | ok b =>
      rw [first] at h
      cases rest : items.mapM step with
      | error other =>
        rw [rest] at h
        cases h
        obtain ⟨failing, mem, same⟩ := ih rest
        exact ⟨failing, List.mem_cons_of_mem _ mem, same⟩
      | ok bs =>
        rw [rest] at h
        cases h

/-- Arguments do not fit the slots, or a slot stays empty. -/
theorem Call.receive_error_cases {slots : List (String × Option Value)} {arguments : Arguments}
    {error : EvalError} (h : receive slots arguments = .error error) :
    (∃ reason, error = .invalidArguments reason) ∨ ∃ name, error = .missingArgument name := by
  unfold receive at h
  split at h
  · cases h
    exact .inl ⟨_, rfl⟩
  · obtain ⟨⟨slot, argument⟩, -, failed⟩ := exists_of_mapM_error h
    dsimp only at failed
    split at failed
    · cases failed
    · cases failed
      exact .inr ⟨_, rfl⟩

theorem Call.receive_error {slots : List (String × Option Value)} {arguments : Arguments}
    {error : EvalError} (h : receive slots arguments = .error error) : ¬error.IsDepth := by
  obtain ⟨_, rfl⟩ | ⟨_, rfl⟩ := receive_error_cases h <;> exact not_false

namespace Operator

/-- Of the operators on numbers only the division fails. -/
theorem onNumbers?_error {operator : Operator} {x y : Float} {error : EvalError}
    (h : operator.onNumbers? x y = some (.error error)) : error = .divisionByZero := by
  unfold onNumbers? at h
  split at h
  · rename_i result computed
    cases result with
    | ok z => cases h
    | error other =>
      cases h
      unfold arithmetic? at computed
      split at computed
      all_goals try cases computed
      split at computed
      · cases computed
        rfl
      · cases computed
  · cases outcome : operator.ordering? x y with
    | none =>
      rw [outcome] at h
      cases h
    | some b =>
      rw [outcome] at h
      cases h

theorem getD_onNumbers?_error {operator : Operator} {x y : Float} {unfit error : EvalError}
    (h : (operator.onNumbers? x y).getD (.error unfit) = .error error)
    (shallow : ¬unfit.IsDepth) : ¬error.IsDepth := by
  cases computed : operator.onNumbers? x y with
  | none =>
    rw [computed] at h
    cases h
    exact shallow
  | some outcome =>
    rw [computed] at h
    cases h
    rw [onNumbers?_error computed]
    exact not_false

theorem apply_error {operator : Operator} {left right : Value} {error : EvalError}
    (h : operator.apply left right = .error error) : ¬error.IsDepth := by
  unfold apply at h
  dsimp only at h
  split at h
  · cases h
  · cases h
  · split at h
    · exact getD_onNumbers?_error h not_false
    · split at h
      · cases h
      · cases h
        exact not_false
    · cases h
      exact not_false

end Operator

namespace Builtin

/-- The failures of a native function have nothing to do with depth. -/
def Native.FailsShallow (native : Native) : Prop :=
  ∀ values error, native values = some (.error error) → ¬error.IsDepth

theorem ofBooleans_failsShallow (f : Bool → Bool → Bool) : (ofBooleans f).FailsShallow := by
  intro values error h
  unfold ofBooleans at h
  split at h
  · simp only [Option.bind_eq_bind, Option.bind_eq_some_iff] at h
    obtain ⟨a, -, b, -, h⟩ := h
    cases h
  · cases h

theorem ofNumbers_failsShallow {f : Float → Float → Except EvalError Value}
    (fails : ∀ x y error, f x y = .error error → ¬error.IsDepth) :
    (ofNumbers f).FailsShallow := by
  intro values error h
  unfold ofNumbers at h
  split at h
  · simp only [Option.bind_eq_bind, Option.bind_eq_some_iff] at h
    obtain ⟨x, -, y, -, h⟩ := h
    exact fails x y error (Option.some.inj h)
  · cases h

theorem ofComparison_failsShallow (f : Float → Float → Bool) : (ofComparison f).FailsShallow :=
  ofNumbers_failsShallow nofun

theorem ofArithmetic_failsShallow (operator : Operator) : (ofArithmetic operator).FailsShallow :=
  ofNumbers_failsShallow fun _ _ _ h =>
    Operator.getD_onNumbers?_error h not_false

theorem ofStrings_failsShallow (f : String → String → Value) : (ofStrings f).FailsShallow := by
  intro values error h
  unfold ofStrings at h
  split at h
  · simp only [Option.bind_eq_bind, Option.bind_eq_some_iff] at h
    obtain ⟨a, -, b, -, h⟩ := h
    cases h
  · cases h

theorem negation_failsShallow : negation.FailsShallow := by
  intro values error h
  unfold negation at h
  split at h
  · obtain ⟨b, -, same⟩ := Option.map_eq_some_iff.1 h
    cases same
  · cases h

theorem range_error {start stop : Float} {error : EvalError} (h : range start stop = .error error) :
    ¬error.IsDepth := by
  unfold range at h
  split at h
  · dsimp only at h
    split at h
    · cases h
      exact not_false
    · cases h
  · cases h
    exact not_false

theorem arrayAt_failsShallow : arrayAt.FailsShallow := by
  intro values error h
  unfold arrayAt at h
  split at h
  · simp only [Option.bind_eq_bind, Option.bind_eq_some_iff] at h
    obtain ⟨items, -, index, -, h⟩ := h
    have failed := Option.some.inj h
    unfold itemAt at failed
    dsimp only at failed
    split at failed
    · cases failed
    · cases failed
      exact not_false
  · cases h

theorem arrayCount_failsShallow : arrayCount.FailsShallow := by
  intro values error h
  unfold arrayCount at h
  split at h
  · obtain ⟨items, -, same⟩ := Option.map_eq_some_iff.1 h
    cases same
  · cases h

theorem table_failsShallow : ∀ entry ∈ table, entry.2.FailsShallow := by
  simp only [table, List.forall_mem_cons]
  exact ⟨ofBooleans_failsShallow _, ofBooleans_failsShallow _, negation_failsShallow,
    ofBooleans_failsShallow _, ofArithmetic_failsShallow _, ofArithmetic_failsShallow _,
    ofArithmetic_failsShallow _, ofArithmetic_failsShallow _, ofComparison_failsShallow _,
    ofComparison_failsShallow _, ofComparison_failsShallow _, ofComparison_failsShallow _,
    ofComparison_failsShallow _, ofNumbers_failsShallow fun _ _ _ => range_error,
    ofStrings_failsShallow _, ofStrings_failsShallow _, arrayAt_failsShallow,
    arrayCount_failsShallow, fun _ none => (List.not_mem_nil none).elim⟩

theorem call_error {path : String} {values : List Value} {error : EvalError}
    (h : call path values = .error error) : ¬error.IsDepth := by
  unfold call at h
  cases found : (table.lookup path).bind fun native => native values with
  | none =>
    rw [found] at h
    cases h
    exact not_false
  | some outcome =>
    rw [found] at h
    obtain ⟨native, known, result⟩ := Option.bind_eq_some_iff.1 found
    cases h
    obtain ⟨before, after, split, -⟩ := List.lookup_eq_some_iff.1 known
    refine table_failsShallow (path, native) ?_ values error result
    rw [split]
    exact List.mem_append_right _ List.mem_cons_self

end Builtin

end DeclLang
