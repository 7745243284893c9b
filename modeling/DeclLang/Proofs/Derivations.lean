import DeclLang.Proofs.DataEvaluation
import DeclLang.Proofs.Tandems

/-!
# Outcomes with a derivation

**Input.**  A way to answer demands, given answers to other demands and a budget.  An answer may
only say that evaluations were nested too deeply.

**Definition.**  `Derived`: an outcome that comes of answers that are derived themselves.
Derivations are finite, so nothing is derived from itself.

**Results.**  If better answers and higher budgets lead to better outcomes (`Improves`), then every
demand has at most one derived outcome, and `meaning` gives it: what comes of the meanings is the
meaning.
-/

namespace DeclLang

/-- The first outcome is the second one, unless it only says that evaluations were nested too
deeply. -/
def Approximates (first second : Except EvalError Value) : Prop :=
  Fails EvalError.IsDepth first ∨ first = second

variable {Demand : Type}
  (run : Nat → (Demand → Except EvalError Value) → Demand → Except EvalError Value)

/-- An outcome that is no question of depth, and comes of such outcomes. -/
inductive Derived : Demand → Except EvalError Value → Prop
  | intro {budget : Nat} {answers : Demand → Except EvalError Value} {demand : Demand}
    (each : ∀ asked, ¬Fails EvalError.IsDepth (answers asked) → Derived asked (answers asked))
    (shallow : ¬Fails EvalError.IsDepth (run budget answers demand)) :
    Derived demand (run budget answers demand)

/-- With a higher budget and better answers, outcomes are better. -/
def Improves : Prop :=
  ∀ budget more answers better, budget ≤ more →
    (∀ asked, Approximates (answers asked) (better asked)) →
      ∀ demand, Approximates (run budget answers demand) (run more better demand)

open Classical in
/-- The derived outcome of a demand; without one, evaluations for it are nested too deeply. -/
noncomputable def meaning (demand : Demand) : Except EvalError Value :=
  if h : ∃ outcome, Derived run demand outcome then h.choose else .error (.depthExceeded 0 0)

variable {run} {demand : Demand} {first second : Except EvalError Value}

theorem derived_meaning (shallow : ¬Fails EvalError.IsDepth (meaning run demand)) :
    Derived run demand (meaning run demand) := by
  unfold meaning at shallow ⊢
  split at shallow
  · rename_i h
    rw [dif_pos h]
    exact h.choose_spec
  · exact absurd ⟨_, rfl, trivial⟩ shallow

variable (improves : Improves run)

include improves

/-- A demand has at most one derived outcome. -/
theorem Derived.unique (h : Derived run demand first) (again : Derived run demand second) :
    first = second := by
  classical
  induction h generalizing second with
  | @intro budget answers demand each shallow ih =>
    cases again with
    | @intro more others _ eachToo shallowToo =>
      -- The answers on both sides have common improvements.
      let both (asked : Demand) : Except EvalError Value :=
        if Fails EvalError.IsDepth (answers asked) then others asked else answers asked
      have left (asked : Demand) : Approximates (answers asked) (both asked) := by
        by_cases deep : Fails EvalError.IsDepth (answers asked)
        · exact .inl deep
        · exact .inr (if_neg deep).symm
      have right (asked : Demand) : Approximates (others asked) (both asked) := by
        by_cases deep : Fails EvalError.IsDepth (answers asked)
        · exact .inr (if_pos deep).symm
        by_cases deepToo : Fails EvalError.IsDepth (others asked)
        · exact .inl deepToo
        · exact .inr ((ih asked deep (eachToo asked deepToo)).symm.trans (if_neg deep).symm)
      have top := improves budget (max budget more) answers both (Nat.le_max_left _ _) left demand
      have topToo := improves more (max budget more) others both (Nat.le_max_right _ _) right demand
      exact (top.resolve_left shallow).trans (topToo.resolve_left shallowToo).symm

/-- What comes of the meanings of other demands is the meaning. -/
theorem run_meaning (budget : Nat) (demand : Demand) :
    Approximates (run budget (meaning run) demand) (meaning run demand) := by
  by_cases deep : Fails EvalError.IsDepth (run budget (meaning run) demand)
  · exact .inl deep
  · have derived : Derived run demand (run budget (meaning run) demand) :=
      .intro (fun asked => derived_meaning) deep
    have some_ : ∃ outcome, Derived run demand outcome := ⟨_, derived⟩
    refine .inr (derived.unique improves ?_)
    unfold meaning
    rw [dif_pos some_]
    exact some_.choose_spec

end DeclLang
