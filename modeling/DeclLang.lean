import DeclLang.Compilation
import DeclLang.Proofs.Trees
import DeclLang.Proofs.InferenceSteps
import DeclLang.Proofs.Unification
import DeclLang.StandardLibrary
import DeclLang.Proofs.TypingSoundness
import DeclLang.Proofs.Contexts
import DeclLang.Proofs.StrictSemantics
import DeclLang.Proofs.DeferredValues
import DeclLang.Proofs.LazyExecution
import DeclLang.Proofs.StepInvariants
import DeclLang.Proofs.References
import DeclLang.Proofs.Registered
import DeclLang.Proofs.ExecutionInvariants
import DeclLang.Proofs.IntactContexts
import DeclLang.Proofs.ClosedEvaluation
import DeclLang.Proofs.PlainFunctions
import DeclLang.Proofs.Reachability
import DeclLang.Proofs.ReferenceSemantics
import DeclLang.Proofs.ArgumentPassing
import DeclLang.Proofs.DataEvaluation
import DeclLang.Proofs.SelfContained
import DeclLang.Proofs.OfferedValues
import DeclLang.Proofs.LaterReads
import DeclLang.Proofs.IsolatedCalls
import DeclLang.Proofs.QueryOrder
import DeclLang.Proofs.ParameterTypes
import DeclLang.Proofs.UnboundedRuns
import DeclLang.Proofs.ValueErrors
import DeclLang.Proofs.Tracking
import DeclLang.Proofs.Termination
import DeclLang.Proofs.RestoredContexts
import DeclLang.Proofs.Places
import DeclLang.Proofs.LexicalRule
import DeclLang.Proofs.WrittenIdentities
import DeclLang.Proofs.ScopeTours
import DeclLang.Proofs.Paths
import DeclLang.Proofs.LexicalResolution
import DeclLang.Proofs.NamespacePaths
import DeclLang.Proofs.LexicalContainment
import DeclLang.Proofs.Repetitions
import DeclLang.Proofs.Registrations
import DeclLang.Proofs.BalancedScopes
import DeclLang.Proofs.CompilationOutcomes
import DeclLang.Proofs.AcceptedConstraints
import DeclLang.Proofs.DeclaredTypes
import DeclLang.Proofs.NominalTypes
import DeclLang.Proofs.Counterparts
import DeclLang.Proofs.ReorderedPrograms
import DeclLang.Proofs.WiderLimits
import DeclLang.Proofs.Worklists
import DeclLang.Proofs.Memoization
import DeclLang.Proofs.TypedValues
import DeclLang.Proofs.ResolutionPasses
import DeclLang.Proofs.FailedConstraints
import DeclLang.Proofs.ErasedLabels
import DeclLang.Proofs.Placement
import DeclLang.Proofs.Instances
import DeclLang.Proofs.MissingArguments
import DeclLang.Proofs.GenericParameters
import DeclLang.Proofs.Omissions
import DeclLang.Proofs.Listings
import DeclLang.Proofs.FocusedScopes
import DeclLang.Proofs.AccountedReferences
import DeclLang.Proofs.Itineraries
import DeclLang.Proofs.Indexes
import DeclLang.Proofs.MemberExpressions
import DeclLang.Proofs.SettledVariables
import DeclLang.Proofs.StackOperations
import DeclLang.Proofs.FreshNames
import DeclLang.Proofs.Trails
import DeclLang.Proofs.DeclarationOrder
import DeclLang.Proofs.LastingTrails
import DeclLang.Proofs.PosedConstraints
import DeclLang.Proofs.LastingTypes
import DeclLang.Proofs.TypeSafety
