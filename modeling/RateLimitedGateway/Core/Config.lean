import Mathlib.Init

/-!
# Application configuration

The fields of `Settings` that the modelled functions read, with the defaults
of the class.  The two secrets have no default, but a least length.
-/

namespace RateLimitedGateway.Core

structure Settings where
  appEnv : String := "development"
  jwtSecret : String
  jwtSecret_length : 16 ≤ jwtSecret.length
  jwtAlgorithm : String := "HS256"
  jwtExpireMinutes : Int := 60
  upstreamBaseUrl : String := "https://httpbin.org"
  adminApiKey : String
  adminApiKey_length : 16 ≤ adminApiKey.length
  allowedOrigins : List String := []
  allowedHosts : List String := ["*"]
  rateLimitFree : Int := 60
  rateLimitPro : Int := 1000
  rateLimitEnterprise : Int := 10000
  deriving DecidableEq, Repr

theorem Settings.adminApiKey_ne_empty (settings : Settings) :
    settings.adminApiKey ≠ "" := by
  intro hempty
  have hlength := settings.adminApiKey_length
  rw [hempty] at hlength
  exact absurd hlength (by decide)

/-- The two secrets of the example environment, and the defaults. -/
def devSettings : Settings :=
  { jwtSecret := "change-me-to-a-long-random-string"
    jwtSecret_length := Nat.le_of_ble_eq_true rfl
    adminApiKey := "change-me-admin-key"
    adminApiKey_length := Nat.le_of_ble_eq_true rfl }

end RateLimitedGateway.Core
