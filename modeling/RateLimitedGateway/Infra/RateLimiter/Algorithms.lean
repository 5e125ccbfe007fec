import RateLimitedGateway.Foundation.Rounding
import RateLimitedGateway.Infra.RateLimiter.RedisLimiter

/-!
# The reference algorithm

`algorithms.py` has the token bucket a second time, as the reference of the Lua
script.  The two round the waiting time up in different ways, so they differ
where it is a whole number of seconds, and nowhere else.
-/

namespace RateLimitedGateway.Infra

open RateLimitedGateway.Foundation

abbrev TokenBucketState := Bucket

structure TokenBucketResult where
  allowed : Bool
  newState : TokenBucketState
  remaining : Int
  retryAfter : Int
  deriving DecidableEq, Repr

def checkTokenBucket (state : Option TokenBucketState) (now capacity : Int)
    (refillRatePerSec : ℚ) : TokenBucketResult :=
  let state := state.getD { tokens := capacity, lastRefill := now }
  let elapsed := max 0 (now - state.lastRefill)
  let refilledTokens := state.tokens + elapsed * refillRatePerSec
  let currentTokens := min refilledTokens capacity
  if currentTokens ≥ 1 then
    let newTokens := currentTokens - 1
    { allowed := true
      newState := { tokens := newTokens, lastRefill := now }
      remaining := truncate newTokens
      retryAfter := 0 }
  else
    let deficit := 1 - currentTokens
    let waitSeconds := truncate (deficit / refillRatePerSec) + 1
    { allowed := false
      newState := { tokens := currentTokens, lastRefill := now }
      remaining := 0
      retryAfter := waitSeconds }

def ScriptRun.Agrees (run : ScriptRun) (result : TokenBucketResult) : Prop :=
  (run.reply.allowed ≠ 0 ↔ result.allowed = true) ∧
    run.reply.remaining = result.remaining ∧
    run.reply.retryAfter = result.retryAfter ∧
    run.bucket = result.newState

instance (run : ScriptRun) (result : TokenBucketResult) :
    Decidable (run.Agrees result) := inferInstanceAs (Decidable (_ ∧ _))

structure BucketCall where
  now : Int
  capacity : Int
  refillRate : ℚ
  one_le_capacity : 1 ≤ capacity
  refillRate_pos : 0 < refillRate

namespace BucketCall

variable (call : BucketCall) (stored : Option Bucket)

def script : ScriptRun :=
  tokenBucketScript stored call.capacity call.refillRate call.now

def reference : TokenBucketResult :=
  checkTokenBucket stored call.now call.capacity call.refillRate

/-- The bucket, left alone from `now` on, has one token at a whole second. -/
def FillsOnSecond : Prop :=
  ∃ bucket, stored = some bucket ∧ ∃ wait : ℕ, 0 < wait ∧
    bucket.tokens +
      (max 0 ((call.now : ℚ) - bucket.lastRefill) + wait) * call.refillRate = 1

/-! ## One call -/

def current : ℚ :=
  currentTokens stored call.capacity call.refillRate call.now

theorem reference_eq :
    call.reference stored =
      if 1 ≤ call.current stored then
        { allowed := true
          newState := ⟨call.current stored - 1, call.now⟩
          remaining := truncate (call.current stored - 1)
          retryAfter := 0 }
      else
        { allowed := false
          newState := ⟨call.current stored, call.now⟩
          remaining := 0
          retryAfter :=
            truncate ((1 - call.current stored) / call.refillRate) + 1 } := by
  cases stored <;> rfl

theorem script_reply_eq :
    (call.script stored).reply =
      if 1 ≤ call.current stored then ⟨1, ⌊call.current stored - 1⌋, 0⟩
      else ⟨0, 0, ⌈(1 - call.current stored) / call.refillRate⌉⟩ := by
  unfold script tokenBucketScript current
  by_cases h : 1 ≤ currentTokens stored call.capacity call.refillRate call.now
  · simp [h]
  · simp [h]

theorem script_bucket_eq :
    (call.script stored).bucket = (call.reference stored).newState := by
  rw [reference_eq, script, tokenBucketScript_bucket, current]
  split <;> simp

theorem fillsOnSecond_iff :
    call.FillsOnSecond stored ↔ call.current stored < 1 ∧
      ∃ wait : Int, (1 - call.current stored) / call.refillRate = wait := by
  have hrate := call.refillRate_pos
  have hcapacity : (1 : ℚ) ≤ call.capacity := by
    exact_mod_cast call.one_le_capacity
  unfold FillsOnSecond current
  cases stored with
  | none => simp [currentTokens_none, hcapacity]
  | some bucket =>
      rw [currentTokens_some]
      generalize hrefilled : bucket.tokens +
        max 0 ((call.now : ℚ) - bucket.lastRefill) * call.refillRate = refilled
      constructor
      · rintro ⟨same, hsame, wait, hwait, htoken⟩
        obtain rfl := Option.some.inj hsame
        have hwait' : (0 : ℚ) < wait * call.refillRate := by positivity
        have hone : refilled + wait * call.refillRate = 1 := by
          rw [← hrefilled]
          linarith
        have hbelow : refilled < 1 := by linarith
        rw [min_eq_left (hbelow.le.trans hcapacity)]
        refine ⟨hbelow, wait, ?_⟩
        rw [div_eq_iff hrate.ne']
        push_cast
        linarith
      · rintro ⟨hbelow, wait, hquotient⟩
        have hrefilled' : refilled < 1 := by
          rcases min_lt_iff.mp hbelow with hbelow | hbelow <;> linarith
        rw [min_eq_left (hrefilled'.le.trans hcapacity),
          div_eq_iff hrate.ne'] at hquotient
        have hpos : 0 < wait := by
          have : (0 : ℚ) < wait * call.refillRate := by linarith
          exact_mod_cast (pos_iff_pos_of_mul_pos this).mpr hrate
        refine ⟨bucket, rfl, wait.toNat, by omega, ?_⟩
        have hcast : ((wait.toNat : ℕ) : ℚ) = wait := by
          exact_mod_cast Int.toNat_of_nonneg hpos.le
        rw [hcast, add_mul]
        linarith

theorem agrees_iff :
    (call.script stored).Agrees (call.reference stored) ↔
      ¬ call.FillsOnSecond stored := by
  rw [fillsOnSecond_iff, ScriptRun.Agrees, script_bucket_eq, script_reply_eq,
    reference_eq]
  by_cases hallowed : 1 ≤ call.current stored
  · have hnonneg : 0 ≤ call.current stored - 1 := by linarith
    simp [hallowed, truncate_of_nonneg hnonneg]
  · have hdenied := not_le.mp hallowed
    have hnonneg : 0 ≤ (1 - call.current stored) / call.refillRate :=
      div_nonneg (by linarith) call.refillRate_pos.le
    simp only [hallowed, hdenied, if_false, true_and,
      truncate_of_nonneg hnonneg, ceil_eq_floor_add_one_iff]
    simp

end BucketCall

/-! ## A run of calls -/

section Run

variable (stored : Option Bucket) (calls : ℕ → BucketCall)

def scriptBefore : ℕ → Option Bucket
  | 0 => stored
  | n + 1 => some ((calls n).script (scriptBefore n)).bucket

def referenceBefore : ℕ → Option TokenBucketState
  | 0 => stored
  | n + 1 => some ((calls n).reference (referenceBefore n)).newState

theorem scriptBefore_eq (n : ℕ) :
    scriptBefore stored calls n = referenceBefore stored calls n := by
  induction n with
  | zero => rfl
  | succ n ih =>
      rw [scriptBefore, referenceBefore, BucketCall.script_bucket_eq, ih]

/--
Along every run, the script and its reference agree at all calls exactly when
no bucket that is found fills on a second.
-/
theorem runs_agree_iff (n : ℕ) :
    (∀ k < n, ((calls k).script (scriptBefore stored calls k)).Agrees
        ((calls k).reference (referenceBefore stored calls k))) ↔
      ∀ k < n, ¬ (calls k).FillsOnSecond (scriptBefore stored calls k) := by
  simp only [← scriptBefore_eq, BucketCall.agrees_iff]

end Run

def emptyBucketCall : BucketCall :=
  { now := 0, capacity := 60, refillRate := 1, one_le_capacity := by decide,
    refillRate_pos := by decide }

theorem reference_waits_longer :
    ¬ ∀ (stored : Option Bucket) (call : BucketCall),
      (call.script stored).Agrees (call.reference stored) := by
  intro hagree
  have hempty := hagree (some ⟨0, 0⟩) emptyBucketCall
  revert hempty
  decide +kernel

end RateLimitedGateway.Infra
