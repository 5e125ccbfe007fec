import Mathlib.Data.Finset.Lattice.Fold
import RateLimitedGateway.Infra.RateLimiter.Admission

/-!
# Readings in any order

Each process reads its clock before it awaits Redis, so the scripts on one key
may execute with readings in any order.  An earlier reading refills nothing,
but it is stored, and the next later one is credited from it.  The seconds that
a run credits are therefore the ascents of its readings, each cut to the sixty
that fill the bucket, and not the distance between the extreme readings.
-/

namespace RateLimitedGateway.Infra

open Finset RateLimitedGateway.Foundation

def secondsCredited (readings : ℕ → Int) (k : ℕ) : Int :=
  min 60 (max 0 (readings (k + 1) - readings k))

def creditedSeconds (readings : ℕ → Int) (n : ℕ) : Int :=
  ∑ k ∈ range n, secondsCredited readings k

def spread (readings : ℕ → Int) (n : ℕ) : Int :=
  (range (n + 1)).sup' nonempty_range_add_one readings -
    (range (n + 1)).inf' nonempty_range_add_one readings

theorem secondsCredited_nonneg (readings : ℕ → Int) (k : ℕ) :
    0 ≤ secondsCredited readings k :=
  le_min (by norm_num) (le_max_left _ _)

theorem secondsCredited_le (readings : ℕ → Int) (k : ℕ) :
    secondsCredited readings k ≤ 60 :=
  min_le_left _ _

theorem creditedSeconds_le_spread {readings : ℕ → Int} {n : ℕ}
    (hclock : ∀ k < n, readings k ≤ readings (k + 1)) :
    creditedSeconds readings n ≤ spread readings n := by
  have htotal : creditedSeconds readings n ≤ readings n - readings 0 := by
    rw [← sum_range_sub]
    apply sum_le_sum
    intro k hk
    have hstep := hclock k (mem_range.mp hk)
    unfold secondsCredited
    omega
  have hmax : readings n ≤
      (range (n + 1)).sup' nonempty_range_add_one readings :=
    le_sup' readings (by simp)
  have hmin : (range (n + 1)).inf' nonempty_range_add_one readings ≤
      readings 0 :=
    inf'_le readings (by simp)
  unfold spread
  omega

/-! ## Repeating each reading -/

/-- Each reading is borne by `repeats + 1` calls in a row. -/
def stretch (readings : ℕ → Int) (repeats : ℕ) : ℕ → Int :=
  fun k => readings (k / (repeats + 1))

theorem stretch_add (readings : ℕ → Int) {repeats i : ℕ} (j : ℕ)
    (hi : i < repeats + 1) :
    stretch readings repeats (j * (repeats + 1) + i) = readings j := by
  unfold stretch
  rw [mul_comm, Nat.mul_add_div (Nat.succ_pos repeats), Nat.div_eq_of_lt hi,
    add_zero]

theorem spread_stretch (readings : ℕ → Int) (repeats n : ℕ) :
    spread (stretch readings repeats) (n * (repeats + 1) + repeats) =
      spread readings n := by
  have hindex : ∀ k ∈ range (n * (repeats + 1) + repeats + 1),
      k / (repeats + 1) ∈ range (n + 1) := by
    intro k hk
    rw [mem_range] at hk ⊢
    apply Nat.div_lt_of_lt_mul
    rw [mul_comm, Nat.add_mul]
    omega
  have hsource : ∀ j ∈ range (n + 1),
      j * (repeats + 1) + 0 ∈ range (n * (repeats + 1) + repeats + 1) := by
    intro j hj
    have := Nat.mul_le_mul_right (repeats + 1)
      (Nat.lt_succ_iff.mp (mem_range.mp hj))
    rw [mem_range]
    omega
  unfold spread
  congr 1
  · apply le_antisymm
    · exact sup'_le _ _ fun k hk => le_sup' readings (hindex k hk)
    · refine sup'_le _ _ fun j hj => ?_
      rw [← stretch_add readings j (Nat.succ_pos repeats)]
      exact le_sup' (stretch readings repeats) (hsource j hj)
  · apply le_antisymm
    · refine le_inf' _ _ fun j hj => ?_
      rw [← stretch_add readings j (Nat.succ_pos repeats)]
      exact inf'_le (stretch readings repeats) (hsource j hj)
    · exact le_inf' _ _ fun k hk => inf'_le readings (hindex k hk)

theorem secondsCredited_border (readings : ℕ → Int) (repeats j : ℕ) :
    secondsCredited (stretch readings repeats) (j * (repeats + 1) + repeats) =
      secondsCredited readings j := by
  unfold secondsCredited
  have hnext : j * (repeats + 1) + repeats + 1 =
      (j + 1) * (repeats + 1) + 0 := by ring
  rw [hnext, stretch_add readings (j + 1) (Nat.succ_pos repeats),
    stretch_add readings j (Nat.lt_succ_self repeats)]

theorem creditedSeconds_stretch (readings : ℕ → Int) (repeats n : ℕ) :
    creditedSeconds (stretch readings repeats) (n * (repeats + 1) + repeats) =
      creditedSeconds readings n := by
  have hinside : ∀ j, ∀ i < repeats, secondsCredited (stretch readings repeats)
      (j * (repeats + 1) + i) = 0 := by
    intro j i hi
    unfold secondsCredited
    rw [add_assoc, stretch_add readings j (Nat.lt_succ_of_lt hi),
      stretch_add readings j (by omega)]
    simp
  unfold creditedSeconds
  induction n with
  | zero =>
      apply sum_eq_zero
      intro i hi
      simpa using hinside 0 i (by simpa using hi)
  | succ n ih =>
      have hlength : (n + 1) * (repeats + 1) + repeats =
          n * (repeats + 1) + repeats + 1 + repeats := by ring
      rw [hlength, sum_range_add, sum_range_succ, ih, secondsCredited_border,
        sum_range_succ, add_eq_left]
      apply sum_eq_zero
      intro i hi
      have hshift : n * (repeats + 1) + repeats + 1 + i =
          (n + 1) * (repeats + 1) + i := by ring
      rw [hshift]
      exact hinside (n + 1) i (mem_range.mp hi)

namespace RedisRateLimiter

/-! ## The bound -/

def fixedLimit (limit : Int) (hlimit : 0 < limit) (readings : ℕ → Int) :
    ℕ → CheckCall :=
  fun k => { limit := limit, now := readings k, limit_pos := hlimit }

def AdmissionBounded (redis : Redis) (key : String) (limit : Int)
    (hlimit : 0 < limit) (readings : ℕ → Int) (n : ℕ) : Prop :=
  (allowedCount redis key (fixedLimit limit hlimit readings) 0 (n + 1) : ℚ) ≤
    limit + spread readings n * limit / 60

theorem min_limit_refillAt {limit : Int} (hlimit : 0 < limit)
    (readings : ℕ → Int) (k : ℕ) :
    min (limit : ℚ) (refillAt (fixedLimit limit hlimit readings) (k + 1)) =
      secondsCredited readings k * limit / 60 := by
  have hrate : (0 : ℚ) ≤ limit / 60 := by positivity
  have hfull : (limit : ℚ) = 60 * (limit / 60) := by ring
  simp only [refillAt, fixedLimit, windowSeconds, secondsCredited,
    Nat.add_sub_cancel]
  push_cast
  rw [mul_div_assoc, min_mul_of_nonneg _ _ hrate, ← hfull]

theorem fixedLimit_allowedCount_le (redis : Redis) (key : String)
    {limit : Int} (hlimit : 0 < limit) (readings : ℕ → Int) (n : ℕ) :
    (allowedCount redis key (fixedLimit limit hlimit readings) 0 (n + 1) : ℚ) ≤
      limit + creditedSeconds readings n * limit / 60 := by
  have hbound := allowedCount_le redis key (fixedLimit limit hlimit readings) n
  have hcredit : ∑ k ∈ range n, min (limit : ℚ)
      (refillAt (fixedLimit limit hlimit readings) (k + 1)) =
        creditedSeconds readings n * limit / 60 := by
    unfold creditedSeconds
    rw [Int.cast_sum, mul_div_assoc, sum_mul]
    apply sum_congr rfl
    intro k _
    rw [min_limit_refillAt, mul_div_assoc]
  rw [← hcredit]
  exact hbound

/-! ## Runs that use every token -/

section Drained

variable (redis : Redis) (key : String) (readings : ℕ → Int)

def everySecond (readings : ℕ → Int) : ℕ → CheckCall :=
  fixedLimit 60 (by norm_num) readings

theorem spentAt_of_natCast {calls : ℕ → CheckCall} {n c : ℕ}
    (htokens : tokensAt redis key calls n = c) :
    spentAt redis key calls n = if 0 < c then 1 else 0 := by
  simp only [spentAt_eq, htokens, Nat.one_le_cast, Nat.succ_le_iff]

theorem tokensAt_same_reading {m c : ℕ} (hc : c ≤ 60)
    (htokens : tokensAt redis key (everySecond readings) m = c) {i : ℕ}
    (hsame : ∀ j ≤ i, readings (m + j) = readings m) :
    tokensAt redis key (everySecond readings) (m + i) = ((c - i : ℕ) : ℚ) ∧
      ∑ k ∈ Ico m (m + i), spentAt redis key (everySecond readings) k =
        ((min c i : ℕ) : ℚ) := by
  induction i with
  | zero => simp [htokens]
  | succ i ih =>
      obtain ⟨hleft, htaken⟩ := ih fun j hj => hsame j (Nat.le_succ_of_le hj)
      have hspent : spentAt redis key (everySecond readings) (m + i) =
          if i < c then 1 else 0 := by
        simp only [spentAt_of_natCast redis key hleft, Nat.sub_pos_iff_lt]
      have hrefill : refillAt (everySecond readings) (m + i + 1) = 0 := by
        simp [refillAt, everySecond, fixedLimit, hsame i (Nat.le_succ i),
          add_assoc, hsame (i + 1) le_rfl]
      constructor
      · have hnext : ((c - i : ℕ) : ℚ) - (if i < c then 1 else 0) =
            ((c - (i + 1) : ℕ) : ℚ) := by
          split
          · next hlt =>
            have hone : 1 ≤ c - i := Nat.sub_pos_of_lt hlt
            rw [← Nat.sub_sub, Nat.cast_sub hone, Nat.cast_one]
          · next hge =>
            rw [Nat.sub_eq_zero_of_le (by omega),
              Nat.sub_eq_zero_of_le (by omega), sub_zero]
        have hcap : ((c - (i + 1) : ℕ) : ℚ) ≤ 60 := by
          exact_mod_cast (Nat.sub_le c (i + 1)).trans hc
        rw [← add_assoc, tokensAt_succ, hleft, hspent, hrefill, hnext, add_zero]
        exact min_eq_left hcap
      · rw [← add_assoc, sum_Ico_succ_top (by omega), htaken, hspent]
        split
        · rw [Nat.min_eq_right (by omega), Nat.min_eq_right (by omega)]
          push_cast
          rfl
        · rw [Nat.min_eq_left (by omega), Nat.min_eq_left (by omega), add_zero]

theorem everySecond_block {m c : ℕ} (hc : c ≤ 60)
    (htokens : tokensAt redis key (everySecond readings) m = c)
    (hsame : ∀ j < 60, readings (m + j) = readings m) :
    ∑ k ∈ Ico m (m + 60), spentAt redis key (everySecond readings) k = c ∧
      tokensAt redis key (everySecond readings) (m + 60) =
        secondsCredited readings (m + 59) := by
  obtain ⟨hleft, htaken⟩ := tokensAt_same_reading redis key readings hc htokens
    (i := 59) fun j hj => hsame j (by omega)
  have hspent : spentAt redis key (everySecond readings) (m + 59) =
      ((c - 59 : ℕ) : ℚ) := by
    rw [spentAt_of_natCast redis key hleft]
    split
    · rw [show c - 59 = 1 by omega, Nat.cast_one]
    · rw [show c - 59 = 0 by omega, Nat.cast_zero]
  constructor
  · rw [show m + 60 = m + 59 + 1 from rfl, sum_Ico_succ_top (by omega), htaken,
      hspent]
    norm_cast
    omega
  · rw [show m + 60 = m + 59 + 1 from rfl, tokensAt_succ, hleft, hspent,
      sub_self, zero_add, min_comm]
    have hlimit : (0 : Int) < 60 := by norm_num
    have hcredit := min_limit_refillAt hlimit readings (m + 59)
    rw [mul_div_assoc] at hcredit
    exact hcredit.trans (by norm_num)

theorem stretch_minute (j : ℕ) : ∀ i < 60,
    stretch readings 59 (j * 60 + i) = stretch readings 59 (j * 60) := by
  intro i hi
  have hfirst : stretch readings 59 (j * 60 + 0) = readings j :=
    stretch_add readings j (by norm_num)
  exact (stretch_add readings j hi).trans hfirst.symm

theorem everySecond_run (habsent : redis key = none) (j : ℕ) :
    ∃ c : ℕ, c ≤ 60 ∧
      tokensAt redis key (everySecond (stretch readings 59)) (j * 60) = c ∧
      (allowedCount redis key (everySecond (stretch readings 59)) 0
        (j * 60) : ℚ) + c = 60 + creditedSeconds readings j := by
  induction j with
  | zero =>
      refine ⟨60, le_rfl, ?_, ?_⟩
      · rw [Nat.zero_mul, tokensAt_zero_of_absent _ habsent]
        rfl
      · simp [allowedCount, creditedSeconds]
  | succ j ih =>
      obtain ⟨c, hc, htokens, hcount⟩ := ih
      obtain ⟨htaken, hnext⟩ :=
        everySecond_block redis key _ hc htokens (stretch_minute readings j)
      have hcredited : secondsCredited (stretch readings 59) (j * 60 + 59) =
          secondsCredited readings j := secondsCredited_border readings 59 j
      have hcast : ((secondsCredited readings j).toNat : ℤ) =
          secondsCredited readings j :=
        Int.toNat_of_nonneg (secondsCredited_nonneg readings j)
      refine ⟨(secondsCredited readings j).toNat, ?_, ?_, ?_⟩
      · have := secondsCredited_le readings j
        omega
      · rw [Nat.add_mul, Nat.one_mul, hnext, hcredited]
        exact_mod_cast hcast.symm
      · rw [← sum_spentAt, Nat.add_mul, Nat.one_mul,
          ← sum_Ico_consecutive _ (Nat.zero_le (j * 60))
            (Nat.le_add_right _ 60),
          htaken, sum_spentAt, hcount]
        unfold creditedSeconds
        rw [sum_range_succ]
        have hcast' : ((secondsCredited readings j).toNat : ℚ) =
            secondsCredited readings j := by exact_mod_cast hcast
        push_cast
        rw [hcast', add_assoc]

theorem everySecond_allowedCount (habsent : redis key = none) (n : ℕ) :
    (allowedCount redis key (everySecond (stretch readings 59)) 0
      (n * 60 + 60) : ℚ) = 60 + creditedSeconds readings n := by
  obtain ⟨c, hc, htokens, hcount⟩ :=
    everySecond_run redis key readings habsent n
  obtain ⟨htaken, -⟩ :=
    everySecond_block redis key _ hc htokens (stretch_minute readings n)
  rw [← sum_spentAt,
    ← sum_Ico_consecutive _ (Nat.zero_le (n * 60)) (Nat.le_add_right _ 60),
    htaken, sum_spentAt, hcount]

end Drained

/--
The bound holds at every limit and for any number of calls at each reading
exactly when the seconds credited along the readings do not exceed their spread.
-/
theorem admission_bounded_iff (readings : ℕ → Int) (n : ℕ) :
    (∀ (redis : Redis) (key : String) (limit : Int) (hlimit : 0 < limit)
      (repeats : ℕ), AdmissionBounded redis key limit hlimit
        (stretch readings repeats) (n * (repeats + 1) + repeats)) ↔
      creditedSeconds readings n ≤ spread readings n := by
  constructor
  · intro hbounded
    have hrun := hbounded Redis.empty "user:alice" 60 (by norm_num) 59
    have hcount :=
      everySecond_allowedCount Redis.empty "user:alice" readings rfl n
    unfold AdmissionBounded at hrun
    rw [spread_stretch] at hrun
    have hle := hcount.symm.le.trans hrun
    norm_num at hle
    exact hle
  · intro hcredit redis key limit hlimit repeats
    have hcount := fixedLimit_allowedCount_le redis key hlimit
      (stretch readings repeats) (n * (repeats + 1) + repeats)
    rw [creditedSeconds_stretch] at hcount
    have hlimit' : (0 : ℚ) ≤ limit := by exact_mod_cast hlimit.le
    unfold AdmissionBounded
    rw [spread_stretch]
    refine hcount.trans ?_
    gcongr

theorem backward_clock_overadmits :
    ¬ ∀ (redis : Redis) (key : String) (limit : Int) (hlimit : 0 < limit)
      (readings : ℕ → Int) (n : ℕ),
      AdmissionBounded redis key limit hlimit readings n := by
  intro hbounded
  have hrun := hbounded Redis.empty "user:alice" 1 one_pos
    (fun k => if k % 2 = 0 then 60 else 0) 4
  have hcount : ¬ AdmissionBounded Redis.empty "user:alice" 1 one_pos
    (fun k => if k % 2 = 0 then 60 else 0) 4 := by
    unfold AdmissionBounded
    decide +kernel
  exact hcount hrun

end RedisRateLimiter

end RateLimitedGateway.Infra
