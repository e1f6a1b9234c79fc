import LlmGateway.Budget.ProviderBudget
import LlmGateway.Gateway.Redis
import LlmGateway.Coroutine.Footprint
import LlmGateway.Gateway.Footprint
import LlmGateway.Coroutine.Stages
import LlmGateway.Budget.LifetimeCeiling
import LlmGateway.Budget.Tracker
import LlmGateway.Main.SettleChain
import LlmGateway.Main.ReserveChain
import LlmGateway.Main.ReserveRun
import LlmGateway.Main.Conservation
import LlmGateway.Main.AllOrNothing
import LlmGateway.Main.Outcome
import LlmGateway.Main.Abandonment
import LlmGateway.Main.EventStream
import LlmGateway.Main.StreamRun
import LlmGateway.Main.StreamAbandonment
import LlmGateway.Main.SettledOnce
import LlmGateway.Main.StreamCost
import LlmGateway.Routing.Fallback
import LlmGateway.Routing.Answers
import LlmGateway.Main.Coverage
import LlmGateway.Main.ReservedCalls
import LlmGateway.Main.RealBill
import LlmGateway.Gateway.Schemas
import LlmGateway.Providers.Payload
import LlmGateway.Main.PayloadBound
import LlmGateway.Coroutine.Simulation
import LlmGateway.Main.StreamPhases
import LlmGateway.Main.EndpointsAgree
import LlmGateway.Main.PaidAnswer
import LlmGateway.Main.StreamCharge
import LlmGateway.Routing.Stream
import LlmGateway.Providers.Usage
import LlmGateway.Gateway.Expiry
import LlmGateway.Budget.MonthlyCap
import LlmGateway.Budget.PeriodBoundary
import LlmGateway.Main.Accounts
import LlmGateway.Main.Overcharge
import LlmGateway.Main.Refusal
import LlmGateway.Main.StreamEnd
import LlmGateway.Main.AuditTrail
import LlmGateway.Main.TerminalFrame
import LlmGateway.Main.Leaks
import LlmGateway.Routing.CircuitBreaker
import LlmGateway.Routing.Tour
import LlmGateway.Routing.Selection
import LlmGateway.Routing.Consecutive
import LlmGateway.Routing.Agreement
import LlmGateway.Ratelimit.TokenBucket
import LlmGateway.Ratelimit.ClockSkew
import LlmGateway.Ratelimit.BucketExpiry
import LlmGateway.Budget.Turns
import LlmGateway.Budget.Gauge
import LlmGateway.Budget.EqualClaims
import LlmGateway.Main.LedgerCalls
import LlmGateway.Providers.StreamContract
import LlmGateway.Providers.OllamaReply
import LlmGateway.Text.Str
import LlmGateway.Db.ApiKeys
import LlmGateway.Security.Auth
import LlmGateway.Ratelimit.Dependency
import LlmGateway.Ratelimit.RetryAfter
import LlmGateway.Scripts.PurgeAuditRows
import LlmGateway.Scripts.PurgeCopies
import LlmGateway.Coroutine.Throughout
import LlmGateway.Admin.Routes
import LlmGateway.Admin.KeyLifecycle
import LlmGateway.Admin.Listing
import LlmGateway.Text.Regex
import LlmGateway.Text.Decimal
import LlmGateway.Scripts.Reconcile
import LlmGateway.Scripts.RedisUrl
import LlmGateway.Scripts.BenchOverhead
import LlmGateway.Main.RoutedStream
import LlmGateway.Routing.Dependencies
import LlmGateway.Main.RoutedRequest
import LlmGateway.Main.Vouched
import LlmGateway.Coroutine.Sum
import LlmGateway.Http.Gates
import LlmGateway.Http.Endpoints
import LlmGateway.Http.Cleared
import LlmGateway.Http.Stores
import LlmGateway.Text.Json
import LlmGateway.Text.ServerSentEvents
import LlmGateway.Main.Wire
import LlmGateway.Routing.Quotation
import LlmGateway.Main.Quotation
import LlmGateway.Main.Books
import LlmGateway.Scripts.Reconciliation
import LlmGateway.Http.Routed
