import Workbench.Listing
import Workbench.Decimals
import Workbench.Calendar
import Workbench.Raising
import Workbench.Records
import Workbench.Evidence
import Workbench.References
import Workbench.Flood
import Workbench.Json
import Workbench.Candidates
import Workbench.Matching
import Workbench.PaddedAssignment
import Workbench.Assignment
import Workbench.Components
import Workbench.Optimum
import Workbench.AssignmentOptimality
import Workbench.Gating
import Workbench.Acceptance
import Workbench.Comparison
import Workbench.Scoring
import Workbench.Diagnostics
import Workbench.Engine
import Workbench.Results
import Workbench.Reservations
import Workbench.SearchSpace
import Workbench.Generation
import Workbench.Scores
import Workbench.Comparisons
import Workbench.Diagnosis
import Workbench.Reconciled
import Workbench.Totality
import Workbench.Eligibility
import Workbench.Overrides
import Workbench.Reasons
import Workbench.AcceptedHealth
import Workbench.Tables
import Workbench.Workspaces
import Workbench.Jobs
import Workbench.JobRuns
import Workbench.Quotas
import Workbench.Accounts
import Workbench.DecimalTexts
import Workbench.DecimalRounding
import Workbench.CivilTime
import Workbench.Ingestion
import Workbench.Interpretation
import Workbench.Decisions
import Workbench.Observations
import Workbench.Dictionaries
import Workbench.Fingerprints
import Workbench.Activation
import Workbench.ActivationLaws
import Workbench.Correspondence
import Workbench.Pruning
import Workbench.Thinning
import Workbench.Renaming
import Workbench.Agreement
import Workbench.DecisionStore
import Workbench.DecisionLaws
import Workbench.FrozenDecisions
import Workbench.DoubleRejection
import Workbench.Review
import Workbench.Upserts
import Workbench.Runs
import Workbench.Publications
import Workbench.PublicationFrames
import Workbench.PublicationRuns
import Workbench.ScopeViews
import Workbench.Sightings
import Workbench.Alarms
import Workbench.CsvReader
import Workbench.Intake
import Workbench.Artifacts
import Workbench.Completions
import Workbench.Attachments
import Workbench.Claims
import Workbench.AttemptBound
import Workbench.AttemptHistory
import Workbench.Balances
import Workbench.Base64
import Workbench.Timestamps
import Workbench.Payloads
import Workbench.Columns
import Workbench.Bindings
import Workbench.Blinded
import Workbench.Blocking
import Workbench.LocalTimes
import Workbench.Defects
import Workbench.BoundFields
import Workbench.StateHashes
import Workbench.CaseKeys
import Workbench.CaseContinuity
import Workbench.DecimalStrings
import Workbench.ExactDecimals
import Workbench.JsonMembers
import Workbench.CaseExports
import Workbench.CaseHealth
import Workbench.Keysets
import Workbench.ChangingPages
import Workbench.Collector
import Workbench.Cleanup
import Workbench.ContractPayloads
import Workbench.Rounding
import Workbench.Nearest
import Workbench.Contributions
import Workbench.JsonReading
import Workbench.Cursors
import Workbench.Purges
import Workbench.Deliveries
import Workbench.Differences
import Workbench.Exchange
import Workbench.Nesting
import Workbench.Expiry
import Workbench.ReviewLists
import Workbench.ExportLists
import Workbench.ExportReading
import Workbench.ItemFates
import Workbench.Requests
import Workbench.Policies
import Workbench.Fencing
import Workbench.Invalidation
import Workbench.Freshness
import Workbench.Ledgers
import Workbench.Histories
import Workbench.ImportJobs
import Workbench.ImportLaws
import Workbench.JobIsolation
import Workbench.Leases
import Workbench.LiftedLimits
import Workbench.Transposes
import Workbench.Mirror
import Workbench.Namespaces
import Workbench.Terminals
import Workbench.Partners
import Workbench.PolicyPayloads
import Workbench.Replacements
import Workbench.Replays
import Workbench.ResultTexts
import Workbench.ReviewVisits
import Workbench.Rivals
import Workbench.SemanticInputs
import Workbench.Stranding
import Workbench.Transitions
import Workbench.TrustedReferences
import Workbench.Tuning
import Workbench.Unrelated
import Workbench.Uploads
