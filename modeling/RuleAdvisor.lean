import RuleAdvisor.Counting.Winning
import RuleAdvisor.Fuzzy.WellFormed
import RuleAdvisor.Main
import RuleAdvisor.Number.Exact
import RuleAdvisor.Sorting.Permutation
import RuleAdvisor.Text.Unstyled
import RuleAdvisor.Proofs.Counting.Positions
import RuleAdvisor.Proofs.Counting.Turns
import RuleAdvisor.Proofs.Counting.History
import RuleAdvisor.Proofs.Counting.Strategy
import RuleAdvisor.Proofs.Counting.Winning
import RuleAdvisor.Proofs.Fuzzy.Acceptance
import RuleAdvisor.Proofs.Traversal
import RuleAdvisor.Proofs.Fuzzy.Degree
import RuleAdvisor.Proofs.Fuzzy.Placement
import RuleAdvisor.Proofs.Fuzzy.Area
import RuleAdvisor.Proofs.Fuzzy.Firing
import RuleAdvisor.Proofs.Fuzzy.Joining
import RuleAdvisor.Proofs.Fuzzy.Soundness
import RuleAdvisor.Proofs.Watering.Estimates
import RuleAdvisor.Proofs.Watering.Fallback
import RuleAdvisor.Proofs.Counting.Admission
import RuleAdvisor.Proofs.Fuzzy.Merging
import RuleAdvisor.Proofs.Fuzzy.Coverage
import RuleAdvisor.Proofs.Watering.Coverage
import RuleAdvisor.Proofs.Fuzzy.Rearranging
import RuleAdvisor.Proofs.Fuzzy.Reordering
import RuleAdvisor.Proofs.Watering.Reordering
import RuleAdvisor.Proofs.Counting.Progress
import RuleAdvisor.Proofs.Fuzzy.Dependence
import RuleAdvisor.Proofs.Watering.Dependence
import RuleAdvisor.Proofs.Number.Rounding
import RuleAdvisor.Proofs.Number.Operations
import RuleAdvisor.Proofs.Number.Whole
import RuleAdvisor.Proofs.Counting.Shipped
import RuleAdvisor.Proofs.Decimal.Digits
import RuleAdvisor.Proofs.CommandLine.Move
import RuleAdvisor.Proofs.Counting.Choosing
import RuleAdvisor.Proofs.Fuzzy.Grid
import RuleAdvisor.Proofs.Fuzzy.Outline
import RuleAdvisor.Proofs.Fuzzy.Tracing
import RuleAdvisor.Proofs.Fuzzy.Cutting
import RuleAdvisor.Proofs.Fuzzy.Combining
import RuleAdvisor.Proofs.Fuzzy.Exactness
import RuleAdvisor.Proofs.Fuzzy.Plotting
import RuleAdvisor.Proofs.Fuzzy.Refining
import RuleAdvisor.Proofs.Fuzzy.Polygon
import RuleAdvisor.Proofs.Fuzzy.Reporting
import RuleAdvisor.Proofs.Fuzzy.Centroid
import RuleAdvisor.Proofs.Fuzzy.Resampling
import RuleAdvisor.Proofs.Fuzzy.Pointwise
import RuleAdvisor.Proofs.Fuzzy.Interval
import RuleAdvisor.Proofs.Fuzzy.Strength
import RuleAdvisor.Proofs.Log.Delivery
import RuleAdvisor.Proofs.Watering.Account
import RuleAdvisor.Proofs.Watering.Session
import RuleAdvisor.Proofs.Text.Styling
import RuleAdvisor.Proofs.Log.Coloring
import RuleAdvisor.Proofs.Number.Integral
import RuleAdvisor.Proofs.Counting.NextSafe
import RuleAdvisor.Proofs.Counting.Typed
import RuleAdvisor.Proofs.Counting.Random
import RuleAdvisor.Proofs.Fuzzy.Crossing
