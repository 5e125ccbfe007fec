import RateLimitedGateway.Infra.CircuitBreaker.OpenPeriod
import RateLimitedGateway.Infra.RateLimiter.ClockOrder
import RateLimitedGateway.Routes.HealthAgreement
import RateLimitedGateway.Routes.ClientFaults
import RateLimitedGateway.Main.Access
import RateLimitedGateway.Infra.RateLimiter.Algorithms
import RateLimitedGateway.Infra.LogStore.Stats
import RateLimitedGateway.Services.LimitOrder
import RateLimitedGateway.Services.Isolation
import RateLimitedGateway.Routes.QuotaHistory
import RateLimitedGateway.Routes.QuotaRaces
import RateLimitedGateway.Main.RedisFailures
import RateLimitedGateway.Infra.RateLimiter.Expiry
import RateLimitedGateway.Services.HealthSamples
import RateLimitedGateway.Routes.Relay
import RateLimitedGateway.Foundation.Uri
import RateLimitedGateway.Routes.Target
import RateLimitedGateway.Routes.Confinement
import RateLimitedGateway.Main.Arrival
import RateLimitedGateway.Main.AdminPlane
import RateLimitedGateway.Main.ErrorEnvelope
import RateLimitedGateway.Infra.RateLimiter.Persistence
import RateLimitedGateway.Infra.RateLimiter.LostDigits
import RateLimitedGateway.Infra.RateLimiter.LostThirds
import RateLimitedGateway.Routes.Forwarding
import RateLimitedGateway.Core.TokenLifetime
import RateLimitedGateway.Foundation.FormQuery
import RateLimitedGateway.Foundation.Urlparse
import RateLimitedGateway.Infra.Database
import RateLimitedGateway.Foundation.Coroutine
import RateLimitedGateway.Foundation.Projection
import RateLimitedGateway.Services.LimiterOnRedis
import RateLimitedGateway.Main.Awaiting
import RateLimitedGateway.Main.Fleet
import RateLimitedGateway.Main.Fleet.Admission
import RateLimitedGateway.Main.Fleet.Progress
import RateLimitedGateway.Main.Fleet.Sessions
import RateLimitedGateway.Main.Fleet.Remaining
import RateLimitedGateway.Main.Fleet.Records
import RateLimitedGateway.Infra.CircuitBreaker.Cycles
import RateLimitedGateway.Main.Fleet.Breakers
import RateLimitedGateway.Services.Halving
import RateLimitedGateway.Main.Fleet.Freshness
import RateLimitedGateway.Services.AuthService
import RateLimitedGateway.Main.Tokens
import RateLimitedGateway.Infra.RateLimiter.Doubles
import RateLimitedGateway.Main.ResponseHeaders
import RateLimitedGateway.Infra.LogStore.Query
import RateLimitedGateway.Main.Fleet.Logs
import RateLimitedGateway.Main.Fleet.Order
import RateLimitedGateway.Main.Fleet.Footprint
