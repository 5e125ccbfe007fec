import Mathlib.Logic.Equiv.List
import Mathlib.Tactic.Ring
import RateLimitedGateway.Core.Security

/-!
# The lifetime of a token

A token is meant to end with the second in which its lifetime does.  The
lifetime goes through a `timedelta`, of which zero does not count as one, and
the end through a `datetime` and a double, which are not always truncated to the
second that they lie in.
-/

namespace RateLimitedGateway.Core

open RateLimitedGateway.Foundation

/-- Each token comes back until its end, if encoded and decoded by the same. -/
structure Jose.RoundTrips (jose : Jose) (secret algorithm : String) : Prop where
  decode_encode : ∀ payload now,
    jose.decode now (jose.encode payload secret algorithm) secret [algorithm] =
      if payload.exp < now then .expiredSignatureError
      else .decoded ⟨some payload.sub, some payload.tier⟩

def LivesFor (jose : Jose) (settings : Settings) (now : Datetime)
    (userId tier : String) (expiresIn : Int) : Prop :=
  ∀ time : ℚ, ∃ token,
    createAccessToken jose settings now userId tier (some expiresIn) =
        some token ∧
      decodeAccessToken (jose.decodeAt settings time) token =
        if ⌊time⌋ ≤ ⌊toSeconds now.micros + toSeconds expiresIn⌋ then
          .ok ⟨userId, tier⟩
        else
          .error (.gatewayError
            ⟨.tokenExpiredError, "Token has expired.", []⟩)

variable {jose : Jose} {settings : Settings}

theorem decode_created
    (hjose : jose.RoundTrips settings.jwtSecret settings.jwtAlgorithm)
    {now expires : Datetime} {expiresIn : Option Int}
    (hexpires : now.add (expireDelta settings expiresIn) = some expires)
    (userId tier : String) (time : ℚ) :
    ∃ token, createAccessToken jose settings now userId tier expiresIn =
        some token ∧
      decodeAccessToken (jose.decodeAt settings time) token =
        if ⌊time⌋ ≤ truncate expires.timestamp then .ok ⟨userId, tier⟩
        else
          .error (.gatewayError
            ⟨.tokenExpiredError, "Token has expired.", []⟩) := by
  refine ⟨_, by rw [createAccessToken, hexpires]; rfl, ?_⟩
  rw [decodeAccessToken, Jose.decodeAt, hjose.decode_encode]
  by_cases hlive : ⌊time⌋ ≤ truncate expires.timestamp
  · rw [if_neg (not_lt.mpr hlive), if_pos hlive]
  · rw [if_pos (not_le.mp hlive), if_neg hlive]

theorem livesFor_iff
    (hjose : jose.RoundTrips settings.jwtSecret settings.jwtAlgorithm)
    (now : Datetime) (userId tier : String) (expiresIn : Int) :
    LivesFor jose settings now userId tier expiresIn ↔
      ∃ expires, now.add (expireDelta settings (some expiresIn)) =
          some expires ∧
        truncate expires.timestamp =
          ⌊toSeconds now.micros + toSeconds expiresIn⌋ := by
  constructor
  · intro hlives
    cases hadd : now.add (expireDelta settings (some expiresIn)) with
    | none =>
        obtain ⟨token, hcreated, -⟩ := hlives 0
        rw [createAccessToken, hadd] at hcreated
        cases hcreated
    | some expires =>
        refine ⟨expires, rfl, ?_⟩
        -- at the later of the two ends only one of them has not passed
        let last : Int := max (truncate expires.timestamp)
          ⌊toSeconds now.micros + toSeconds expiresIn⌋
        obtain ⟨token, hcreated, hmeant⟩ := hlives last
        obtain ⟨token', hcreated', hactual⟩ :=
          decode_created hjose hadd userId tier last
        rw [hcreated, Option.some_inj] at hcreated'
        rw [hcreated', hactual, Int.floor_intCast] at hmeant
        by_contra hne
        rcases lt_or_gt_of_ne hne with hearly | hlate
        · have hlast : last =
              ⌊toSeconds now.micros + toSeconds expiresIn⌋ :=
            max_eq_right hearly.le
          rw [hlast, if_neg (not_le.mpr hearly), if_pos le_rfl] at hmeant
          cases hmeant
        · have hlast : last = truncate expires.timestamp :=
            max_eq_left hlate.le
          rw [hlast, if_pos le_rfl, if_neg (not_le.mpr hlate)] at hmeant
          cases hmeant
  · rintro ⟨expires, hadd, hend⟩ time
    obtain ⟨token, hcreated, hdecoded⟩ :=
      decode_created hjose hadd userId tier time
    exact ⟨token, hcreated, by rw [hdecoded, hend]⟩

theorem jwtExpireMinutes_eq_zero {now expires : Datetime}
    (hadd : now.add (expireDelta settings (some 0)) = some expires)
    (hend : truncate expires.timestamp = ⌊toSeconds now.micros⌋) :
    settings.jwtExpireMinutes = 0 := by
  have hmicros := Datetime.add_eq_some_iff.mp hadd
  have hminutes : toSeconds (expireDelta settings (some 0)) =
      (settings.jwtExpireMinutes * 60 : Int) := by
    simp only [expireDelta, if_true, toSeconds]
    push_cast
    ring
  have hfloor : ⌊toSeconds expires.micros⌋ =
      ⌊toSeconds now.micros⌋ + settings.jwtExpireMinutes * 60 := by
    rw [hmicros, toSeconds_add, hminutes, Int.floor_add_intCast]
  rcases expires.truncate_timestamp with ⟨htruncate, -⟩ | ⟨htruncate, -⟩ <;>
    omega

/--
A token lives as long as it is meant to, at all times, exactly when it is not
meant to live for zero time (unless that is the default), and ends at a
`datetime` that is not truncated to the second above its own.
-/
theorem token_lifetime_iff
    (hjose : jose.RoundTrips settings.jwtSecret settings.jwtAlgorithm)
    (now : Datetime) (userId tier : String) (expiresIn : Int) :
    LivesFor jose settings now userId tier expiresIn ↔
      (expiresIn ≠ 0 ∨ settings.jwtExpireMinutes = 0) ∧
        Representable (now.micros + expiresIn) ∧
          ¬ Overshoots (toSeconds (now.micros + expiresIn)) := by
  have hsame : expiresIn ≠ 0 ∨ settings.jwtExpireMinutes = 0 →
      expireDelta settings (some expiresIn) = expiresIn := by
    rintro (hne | hzero)
    · simp [expireDelta, hne]
    · simp only [expireDelta, hzero]
      split <;> omega
  rw [livesFor_iff hjose]
  constructor
  · rintro ⟨expires, hadd, hend⟩
    have hdelta : expiresIn ≠ 0 ∨ settings.jwtExpireMinutes = 0 := by
      by_cases hzero : expiresIn = 0
      · right
        subst hzero
        apply jwtExpireMinutes_eq_zero hadd
        simpa [toSeconds] using hend
      · exact .inl hzero
    rw [hsame hdelta, Datetime.add_eq_some_iff] at hadd
    refine ⟨hdelta, hadd ▸ expires.representable, ?_⟩
    rw [← toSeconds_add, ← hadd] at hend
    rw [← hadd]
    rcases expires.truncate_timestamp with ⟨-, hsecond⟩ | ⟨hnext, -⟩
    · exact hsecond
    · omega
  · rintro ⟨hdelta, hrepresentable, hsecond⟩
    refine ⟨⟨now.micros + expiresIn, hrepresentable⟩, ?_, ?_⟩
    · rw [hsame hdelta, Datetime.add_eq_some_iff]
    · rw [← toSeconds_add]
      rcases Datetime.truncate_timestamp
        ⟨now.micros + expiresIn, hrepresentable⟩ with ⟨hend, -⟩ | ⟨-, hnext⟩
      · exact hend
      · exact absurd hnext hsecond

/-! ## A token that has ended and one that has not -/

/-- In place of the library: a token is the number of its payload's code. -/
def numberJose : Jose where
  encode payload _ _ :=
    (Encodable.encode (payload.sub.toList.map Char.toNat,
      payload.tier.toList.map Char.toNat, payload.exp)).repr
  decode now token _ _ :=
    let payload : Option (List ℕ × List ℕ × Int) :=
      Encodable.decode (Nat.ofDigitChars 10 token.toList 0)
    match payload with
    | none => .jwtError
    | some (sub, tier, exp) =>
        if exp < now then .expiredSignatureError
        else .decoded ⟨some (String.ofList (sub.map Char.ofNat)),
          some (String.ofList (tier.map Char.ofNat))⟩

theorem numberJose_roundTrips (secret algorithm : String) :
    numberJose.RoundTrips secret algorithm where
  decode_encode payload now := by
    have htext : ∀ text : String,
        String.ofList ((text.toList.map Char.toNat).map Char.ofNat) = text := by
      intro text
      simp [List.map_map, Function.comp_def]
    simp only [numberJose, Nat.toList_repr, Nat.ofDigitChars_ten_toDigits,
      Encodable.encodek, htext]

def newYear : Datetime := ⟨1704067200250000, by decide⟩

theorem token_lifetime_iff_expired :
    LivesFor numberJose devSettings newYear "user_42" "free" (-1500000) := by
  refine (token_lifetime_iff (numberJose_roundTrips _ _) newYear "user_42"
    "free" (-1500000)).mpr ⟨.inl (by decide), by decide, ?_⟩
  exact not_overshoots_of_recent (by decide) (by decide)

theorem no_lifetime_is_an_hour :
    ¬ ∀ (jose : Jose) (settings : Settings) (now : Datetime)
      (userId tier : String) (expiresIn : Int),
      jose.RoundTrips settings.jwtSecret settings.jwtAlgorithm →
        LivesFor jose settings now userId tier expiresIn := by
  intro hlives
  have hzero := hlives numberJose devSettings newYear "user_42" "free" 0
    (numberJose_roundTrips _ _)
  rw [livesFor_iff (numberJose_roundTrips _ _)] at hzero
  obtain ⟨expires, hadd, hend⟩ := hzero
  have hminutes :=
    jwtExpireMinutes_eq_zero hadd (by simpa [toSeconds] using hend)
  exact absurd hminutes (by decide)

end RateLimitedGateway.Core
