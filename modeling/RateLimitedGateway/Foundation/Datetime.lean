import RateLimitedGateway.Foundation.Rounding

/-!
# Points in time

A `datetime` counts microseconds, within the years 1 to 9999; its timestamp is a
double, in seconds.  A `timedelta` is a number of microseconds.
-/

namespace RateLimitedGateway.Foundation

def Representable (micros : Int) : Prop :=
  -62135596800000000 ≤ micros ∧ micros ≤ 253402300799999999

instance (micros : Int) : Decidable (Representable micros) :=
  inferInstanceAs (Decidable (_ ∧ _))

def toSeconds (micros : Int) : ℚ := micros / 10 ^ 6

structure Datetime where
  micros : Int
  representable : Representable micros
  deriving DecidableEq, Repr

namespace Datetime

/-- The sum with a `timedelta`; `none` is an `OverflowError`. -/
def add (moment : Datetime) (delta : Int) : Option Datetime :=
  if h : Representable (moment.micros + delta) then
    some ⟨moment.micros + delta, h⟩
  else none

def timestamp (moment : Datetime) : ℚ := binary64 (toSeconds moment.micros)

end Datetime

theorem Datetime.add_eq_some_iff {moment sum : Datetime} {delta : Int} :
    moment.add delta = some sum ↔ sum.micros = moment.micros + delta := by
  obtain ⟨micros, hmicros⟩ := sum
  unfold Datetime.add
  split
  · simp [eq_comm]
  · next hout =>
    constructor
    · intro h
      cases h
    · rintro rfl
      exact absurd hmicros hout

theorem toSeconds_add (micros delta : Int) :
    toSeconds (micros + delta) = toSeconds micros + toSeconds delta := by
  rw [toSeconds, toSeconds, toSeconds]
  push_cast
  ring

theorem abs_toSeconds_lt {micros : Int} (hmicros : Representable micros) :
    |toSeconds micros| < 2 ^ 52 := by
  obtain ⟨hlow, hhigh⟩ := hmicros
  have hlow' : (-62135596800000000 : ℚ) ≤ micros := by exact_mod_cast hlow
  have hhigh' : (micros : ℚ) ≤ 253402300799999999 := by exact_mod_cast hhigh
  rw [toSeconds, abs_lt, lt_div_iff₀ (by norm_num), div_lt_iff₀ (by norm_num)]
  constructor <;> linarith

/-- `int(moment.timestamp())` is the moment's second, or the one after it. -/
theorem Datetime.truncate_timestamp (moment : Datetime) :
    (truncate moment.timestamp = ⌊toSeconds moment.micros⌋ ∧
        ¬ Overshoots (toSeconds moment.micros)) ∨
      (truncate moment.timestamp = ⌊toSeconds moment.micros⌋ + 1 ∧
        Overshoots (toSeconds moment.micros)) :=
  truncate_binary64 (abs_toSeconds_lt moment.representable)

theorem toSeconds_add_le (micros : Int) :
    toSeconds micros + 1 / 10 ^ 6 ≤ ⌊toSeconds micros⌋ + 1 := by
  have hnext := Int.lt_floor_add_one (toSeconds micros)
  rw [toSeconds, div_lt_iff₀ (by norm_num)] at hnext
  have hmicros : micros + 1 ≤ (⌊toSeconds micros⌋ + 1) * 10 ^ 6 := by
    rw [Int.add_one_le_iff, toSeconds]
    exact_mod_cast hnext
  have hmicros' : (micros + 1 : ℚ) ≤ (⌊toSeconds micros⌋ + 1) * 10 ^ 6 := by
    exact_mod_cast hmicros
  rw [← div_le_iff₀ (by norm_num)] at hmicros'
  rw [toSeconds] at hmicros' ⊢
  linarith

theorem toSeconds_nonneg {micros : Int} (hepoch : 0 ≤ micros) :
    0 ≤ toSeconds micros :=
  div_nonneg (by exact_mod_cast hepoch) (by norm_num)

/-- Before the year 2514 doubles lie closer together than microseconds. -/
theorem halfSpacing_toSeconds_lt {micros : Int} (hepoch : 0 ≤ micros)
    (hrecent : micros < 2 ^ 34 * 10 ^ 6) :
    halfSpacing (toSeconds micros) < 1 / 10 ^ 6 := by
  have hsize : |toSeconds micros| < 2 ^ 34 := by
    rw [abs_of_nonneg (toSeconds_nonneg hepoch), toSeconds,
      div_lt_iff₀ (by norm_num)]
    exact_mod_cast hrecent
  have hlog : Int.log 2 |toSeconds micros| ≤ 33 :=
    Int.lt_add_one_iff.mp (log_abs_lt (by decide) hsize)
  have hunit : unit 2 53 (Int.log 2 |toSeconds micros|) ≤ unit 2 53 33 := by
    unfold unit
    gcongr
    norm_num
  rw [halfSpacing]
  norm_num [unit] at hunit ⊢
  linarith

theorem not_overshoots_of_recent {micros : Int} (hepoch : 0 ≤ micros)
    (hrecent : micros < 2 ^ 34 * 10 ^ 6) : ¬ Overshoots (toSeconds micros) := by
  have hspacing := halfSpacing_toSeconds_lt hepoch hrecent
  have hleft := toSeconds_add_le micros
  rw [Overshoots, if_pos (toSeconds_nonneg hepoch)]
  linarith

end RateLimitedGateway.Foundation
