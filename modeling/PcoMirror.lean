import PcoMirror.Lib.Keyring
import PcoMirror.Model.ApiKeys
import PcoMirror.Model.Client
import PcoMirror.Model.Registration
import PcoMirror.Model.Service
import PcoMirror.Model.Serving.Read
import PcoMirror.Model.Ingest.Audit
import PcoMirror.Model.Ingest.Sweep
import PcoMirror.Verification.Cors.Vary
import PcoMirror.Verification.Cors.Preflight
import PcoMirror.Verification.Cors.RoundTrip
import PcoMirror.Verification.Cors.Matching
import PcoMirror.Verification.Registration.Parsing
import PcoMirror.Verification.Registration.Restarts
import PcoMirror.Verification.Serving.Acceptance
import PcoMirror.Verification.Serving.Following
import PcoMirror.Verification.Serving.Ignored
import PcoMirror.Verification.Serving.Living
import PcoMirror.Verification.Divergence.Convergence
import PcoMirror.Verification.Divergence.Rate
import PcoMirror.Verification.Divergence.Staleness
import PcoMirror.Verification.Audit.Requests
import PcoMirror.Verification.Audit.Units
import PcoMirror.Verification.Ingest.BackfillCompleteness
import PcoMirror.Verification.Ingest.Hydration
import PcoMirror.Verification.Ingest.MergeCrash
import PcoMirror.Verification.Ingest.Reference
import PcoMirror.Verification.Ingest.SweepUpdates
import PcoMirror.Verification.Limiter.BackOff
import PcoMirror.Verification.Limiter.Budget
import PcoMirror.Verification.Schema.Subscriptions
import PcoMirror.Verification.Schema.Columns
import PcoMirror.Verification.Walk.Authority
import PcoMirror.Verification.Webhooks.Capture
import PcoMirror.Verification.Webhooks.Lifecycle
import PcoMirror.Verification.Webhooks.OrderIndependence
import PcoMirror.Verification.Writer.Cascade
import PcoMirror.Verification.Writer.Maximum
import PcoMirror.Verification.Writer.Merge
import PcoMirror.Verification.Writer.Orphans
import PcoMirror.Verification.Writer.RoundTrip
import PcoMirror.Verification.Writer.Sticky
import PcoMirror.Verification.Writer.Transaction
import PcoMirror.Verification.Writer.Richness
import PcoMirror.Verification.Audit.Richness
import PcoMirror.Verification.Scheduler.Fairness
import PcoMirror.Verification.Ingest.HeadOfLine
import PcoMirror.Verification.Walk.Rounds
import PcoMirror.Verification.Ingest.MergerPolls
import PcoMirror.Verification.Writer.Projection
import PcoMirror.Verification.Ingest.Children
import PcoMirror.Verification.Ingest.Households
import PcoMirror.Verification.Ingest.Dangling
import PcoMirror.Verification.Limiter.Waiting
import PcoMirror.Verification.Webhooks.Answers
import PcoMirror.Verification.Webhooks.Unchecked
import PcoMirror.Verification.Divergence.Corpus
import PcoMirror.Verification.Divergence.Log
import PcoMirror.Verification.Serving.Search
import PcoMirror.Verification.Divergence.Exact
import PcoMirror.Verification.Pseudonym.Names
import PcoMirror.Verification.Pseudonym.Disclosure
import PcoMirror.Verification.Serving.Resolving
import PcoMirror.Verification.Access.Admission
import PcoMirror.Verification.Access.Headers
import PcoMirror.Verification.Access.Keys
import PcoMirror.Verification.Admin.Lockout
import PcoMirror.Verification.Serving.Presented
import PcoMirror.Verification.Serving.Scope
import PcoMirror.Verification.System.Passes
import PcoMirror.Verification.System.Provenance
import PcoMirror.Verification.System.Serving
import PcoMirror.Verification.System.Sourcing
import PcoMirror.Lib.RowLog
