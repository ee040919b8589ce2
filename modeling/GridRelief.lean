import GridRelief.Parameters.Form
import GridRelief.Proofs.AtOnce
import GridRelief.Proofs.Borders
import GridRelief.Proofs.Formulation.FallingMargins
import GridRelief.Proofs.Formulation.FlowRows
import GridRelief.Proofs.Formulation.Penalties
import GridRelief.Proofs.Formulation.RelativeReach
import GridRelief.Proofs.Formulation.ShifterLimits
import GridRelief.Proofs.Json.RoundTrip
import GridRelief.Proofs.LimitingElements
import GridRelief.Proofs.Optimizer.Feasibility
import GridRelief.Proofs.Optimizer.TwoRuns
import GridRelief.Proofs.Problem.Index
import GridRelief.Proofs.Problem.Translation
import GridRelief.Proofs.Search.ClosedDepths
import GridRelief.Proofs.Search.Compatibility
import GridRelief.Proofs.Search.DroppedRangeActions
import GridRelief.Proofs.Search.Effective
import GridRelief.Proofs.Search.Ending
import GridRelief.Proofs.Search.FailedOptimization
import GridRelief.Proofs.Search.FeasibleMoves
import GridRelief.Proofs.Search.FilterOrder
import GridRelief.Proofs.Search.FirstStop
import GridRelief.Proofs.Search.Integers
import GridRelief.Proofs.Search.LeastCost
import GridRelief.Proofs.Search.LifeCycle
import GridRelief.Proofs.Search.LimitedProblems
import GridRelief.Proofs.Search.Names
import GridRelief.Proofs.Search.PooledCrew
import GridRelief.Proofs.Search.Progress
import GridRelief.Proofs.Search.Reported
import GridRelief.Proofs.Search.RootCandidates
import GridRelief.Proofs.Search.SharedState
import GridRelief.Proofs.Search.Shift
import GridRelief.Proofs.Search.TestedCombinations
import GridRelief.Proofs.Setpoints
import GridRelief.Proofs.Superposition
import GridRelief.Report
import GridRelief.Search.Tree
import GridRelief.Solver.Exact
