import Mathlib.Tactic.NormNum.DivMod
import RateLimitedGateway.Infra.RateLimiter.Persistence

/-!
# Digits that get lost

A limit whose counts do not all fit into the text has a run that the text
decides otherwise.  A fraction close to a whole token can be rounded up to it; a
third of a token is always rounded down; and a very large count is rounded so
coarsely that spending a token goes unnoticed.
-/

namespace RateLimitedGateway.Infra

open RateLimitedGateway.Foundation

/-! ## What the text makes of a number -/

theorem tostring_natCast {n : ℕ} (hn : n ≤ 10 ^ 14) : tostring n = n := by
  apply (RedisRateLimiter.hasDigits_natCast 0 n).tostring_eq (by omega)
  exact_mod_cast hn

theorem tostring_mono {x y : ℚ} (hx : 0 ≤ x) (hxy : x ≤ y) :
    tostring x ≤ tostring y :=
  roundSignificant_mono (by decide) (by decide) hx hxy

theorem tostring_eq_div {x : ℚ} (digits : ℕ)
    (hlow : 10 ^ 13 ≤ x * 10 ^ digits) (hhigh : x * 10 ^ digits < 10 ^ 14) :
    tostring x = roundHalfEven (x * 10 ^ digits) / 10 ^ digits := by
  have h : roundSignificant 10 14 x =
      roundHalfEven (x * (10 : ℕ) ^ digits) / (10 : ℕ) ^ digits :=
    roundSignificant_eq_div (by decide) (by exact_mod_cast hlow)
      (by exact_mod_cast hhigh)
  exact_mod_cast h

theorem tostring_of_scaled {x part : ℚ} {n : ℕ} (digits : ℕ)
    (hscaled : x * 10 ^ digits = n + part) (hlow : 10 ^ 13 ≤ n)
    (hhigh : n < 10 ^ 14) (hpos : 0 ≤ part) (hlt : part < 1) :
    tostring x = roundHalfEven (n + part) / 10 ^ digits := by
  have hlow' : (10 ^ 13 : ℚ) ≤ n := by exact_mod_cast hlow
  have hhigh' : (n : ℚ) + 1 ≤ 10 ^ 14 := by exact_mod_cast hhigh
  rw [tostring_eq_div digits (by linarith) (by linarith), hscaled]

namespace RedisRateLimiter

variable {store : ℚ → ℚ} {readings : ℕ → Int} {limit : ℕ}

theorem not_sameDecisions (readings : ℕ → Int)
    (hclock : ∀ k, readings k ≤ readings (k + 1)) (n : ℕ)
    (hdiffer : ¬ (1 ≤ found tostring limit readings n ↔
      1 ≤ found id limit readings n)) : ¬ SameDecisions limit := by
  intro hsame
  exact hdiffer (sameDecisions_iff.mp hsame readings hclock n)

/-! ## A bucket used, left alone, and used up -/

theorem storedCount_drain {m rest : ℕ} (hlimit : limit = m + rest)
    (hkept : ∀ n < limit, store (n : ℚ) = n)
    (hsame : ∀ i < m, readings i = readings (i - 1)) :
    storedCount store limit readings m = rest := by
  have hcast : (limit : ℚ) = m + rest := by exact_mod_cast hlimit
  have hfull : storedCount store limit readings 0 = m + rest :=
    (Int.cast_natCast limit).trans hcast
  have h : storedCount store limit readings (0 + m) = rest := by
    apply storedCount_burst hfull (Nat.cast_nonneg rest)
    · exact_mod_cast hlimit.ge
    · simpa using hsame
    · intro n hn
      exact_mod_cast hkept (n + rest) (by omega)
  rwa [zero_add] at h

theorem storedCount_phase {n k wait : ℕ} {count rest : ℚ}
    (hcount : storedCount store limit readings n = count)
    (hwait : readings n = readings (n - 1) + wait)
    (hle : count + wait * (limit / windowSeconds) ≤ limit)
    (hone : 1 ≤ count + wait * (limit / windowSeconds))
    (hround : store (count + wait * (limit / windowSeconds) - 1) = k + rest)
    (hrest : 0 ≤ rest) (hlimit : k + rest ≤ limit)
    (hsame : ∀ i < k, readings (n + 1 + i) = readings (n + 1 + i - 1))
    (hkept : ∀ m < k, store (m + rest) = m + rest) :
    storedCount store limit readings (n + 1 + k) = rest := by
  have hfound : found store limit readings n =
      count + wait * (limit / windowSeconds) := by
    rw [found, refilled, hcount, hwait]
    push_cast
    rw [add_sub_cancel_left, max_eq_right (Nat.cast_nonneg wait)]
    exact min_eq_left hle
  have hfirst : storedCount store limit readings (n + 1) = k + rest := by
    rw [storedCount_succ, hfound, spend_of_one_le hone, hround]
  exact storedCount_burst hfirst hrest (by exact_mod_cast hlimit) hsame hkept

def pausing (m wait : ℕ) (n : ℕ) : Int := if n < m then 0 else wait

theorem pausing_le_succ (m wait n : ℕ) :
    pausing m wait n ≤ pausing m wait (n + 1) := by
  unfold pausing
  split <;> split <;> omega

theorem found_pausing {m k wait left : ℕ} {rest : ℚ} (hm : 0 < m)
    (hlimit : limit = m + left) (hkept : ∀ n < limit, store (n : ℚ) = n)
    (hcap : left + wait * (limit / windowSeconds) ≤ (limit : ℚ))
    (hone : 1 ≤ left + wait * (limit / windowSeconds : ℚ))
    (hround : store (left + wait * (limit / windowSeconds) - 1) = k + rest)
    (hrest : 0 ≤ rest) (hle : k + rest ≤ limit)
    (hkept' : ∀ m < k, store (m + rest) = m + rest) :
    found store limit (pausing m wait) (m + 1 + k) = rest := by
  have hsame : ∀ i, pausing m wait (m + 1 + i) =
      pausing m wait (m + 1 + i - 1) := by
    intro i
    simp only [pausing]
    split <;> split <;> omega
  have hjump : pausing m wait m = pausing m wait (m - 1) + wait := by
    simp only [pausing]
    split <;> split <;> omega
  have hdrained : storedCount store limit (pausing m wait) m = left := by
    apply storedCount_drain hlimit hkept
    intro i hi
    simp only [pausing]
    split <;> split <;> omega
  have hstored : storedCount store limit (pausing m wait) (m + 1 + k) = rest :=
    storedCount_phase hdrained hjump hcap hone hround hrest hle
      (fun i _ => hsame i) hkept'
  have hk : (0 : ℚ) ≤ k := Nat.cast_nonneg k
  rw [found_of_same_reading (hsame k), hstored]
  rw [hstored, Int.cast_natCast]
  linarith

/-! ## Fractions that are rounded up to a token -/

theorem not_sameDecisions_of_round_up (wait count : ℕ)
    (hlimit : limit ≤ 10 ^ 14 + 1) (hcount : count + 2 ≤ limit)
    (hwhole : wait * limit / 60 ≤ count + 1)
    (hround : tostring (count + (wait * limit % 60 : ℕ) / 60) = count + 1) :
    ¬ SameDecisions limit := by
  have hrefill := refill_eq (Nat.div_add_mod (wait * limit) 60).symm
  generalize wait * limit / 60 = whole at hwhole hrefill
  have hlt : ((wait * limit % 60 : ℕ) : ℚ) / 60 < 1 := by
    rw [div_lt_one (by norm_num)]
    exact_mod_cast Nat.mod_lt _ (by decide)
  have hpos : (0 : ℚ) ≤ (wait * limit % 60 : ℕ) / 60 := by positivity
  generalize ((wait * limit % 60 : ℕ) : ℚ) / 60 = fraction at *
  have hcount' : (count : ℚ) + 2 ≤ limit := by exact_mod_cast hcount
  have hnonneg : (0 : ℚ) ≤ count := Nat.cast_nonneg count
  obtain ⟨m, left, hm, hleft, hsum⟩ : ∃ m left, 0 < m ∧ limit = m + left ∧
      left + whole = count + 1 :=
    ⟨limit + whole - count - 1, count + 1 - whole, by omega⟩
  have hsum' : (left : ℚ) + whole = count + 1 := by exact_mod_cast hsum
  have hfound : (left : ℚ) + wait * (limit / windowSeconds) =
      count + fraction + 1 := by
    rw [hrefill]
    linarith
  have hcap : (left : ℚ) + wait * (limit / windowSeconds) ≤ limit := by
    linarith
  have hone : 1 ≤ (left : ℚ) + wait * (limit / windowSeconds) := by
    linarith
  have hexact : found id limit (pausing m wait) (m + 1 + count) = fraction := by
    apply found_pausing hm hleft (fun n _ => rfl) hcap hone _ hpos
    · linarith
    · exact fun n _ => rfl
    · rw [hfound, add_sub_cancel_right]
      rfl
  have htext : found tostring limit (pausing m wait) (m + 1 + count) = 1 := by
    apply found_pausing hm hleft (fun n hn => tostring_natCast (by omega)) hcap
      hone _ zero_le_one
    · linarith
    · intro n hn
      exact_mod_cast tostring_natCast (n := n + 1) (by omega)
    · rw [hfound, add_sub_cancel_right, hround]
  apply not_sameDecisions _ (pausing_le_succ m wait) (m + 1 + count)
  rw [hexact, htext]
  simp [hlt]

theorem tostring_past_middle {count : ℕ} {fraction : ℚ}
    (hlow : 10 ^ 13 ≤ count) (hhigh : count < 10 ^ 14)
    (hmiddle : 1 / 2 < fraction) (hlt : fraction < 1) :
    tostring (count + fraction) = count + 1 := by
  have hround : roundHalfEven (count + fraction : ℚ) = (count + 1 : Int) := by
    apply roundHalfEven_eq <;> push_cast <;> linarith
  rw [tostring_of_scaled 0 (by rw [pow_zero, mul_one]) hlow hhigh
    (by linarith) hlt, hround, pow_zero, div_one]
  push_cast
  rfl

theorem tostring_middle_of_odd {count : ℕ} (hlow : 10 ^ 13 ≤ count)
    (hhigh : count < 10 ^ 14) (hodd : count % 2 = 1) :
    tostring (count + 1 / 2) = count + 1 := by
  have hround : roundHalfEven (count + 1 / 2 : ℚ) = (count + 1 : Int) := by
    exact_mod_cast roundHalfEven_middle_of_odd (n := count) (by omega)
  rw [tostring_of_scaled 0 (by rw [pow_zero, mul_one]) hlow hhigh
    (by norm_num) (by norm_num), hround, pow_zero, div_one]
  push_cast
  rfl

theorem not_sameDecisions_of_fourteen_digits (hlow : 10 ^ 13 + 1 < limit)
    (hhigh : limit ≤ 10 ^ 14 + 1) (hdvd : ¬ 60 ∣ limit) :
    ¬ SameDecisions limit := by
  by_cases hhalf : limit % 60 = 30
  · apply not_sameDecisions_of_round_up 1 (limit - 3) hhigh (by omega)
      (by omega)
    have hfraction : ((1 * limit % 60 : ℕ) : ℚ) / 60 = 1 / 2 := by
      rw [one_mul, hhalf]
      norm_num
    rw [hfraction]
    exact tostring_middle_of_odd (by omega) (by omega) (by omega)
  · have hrest : 0 < limit % 60 := by omega
    have hpast := Nat.lt_mul_div_succ 30 hrest
    have hbefore := Nat.div_mul_le_self 30 (limit % 60)
    have hwait : 30 / (limit % 60) ≤ 30 := Nat.div_le_self _ _
    generalize 30 / (limit % 60) = pause at *
    have hlt : limit % 60 * (pause + 1) < 60 := by
      rw [Nat.mul_succ, Nat.mul_comm]
      rcases Nat.eq_zero_or_pos pause with rfl | hpos
      · omega
      · have hself := Nat.le_mul_of_pos_left (limit % 60) hpos
        omega
    have hmod : (pause + 1) * limit % 60 = limit % 60 * (pause + 1) := by
      rw [← Nat.mul_mod_mod, Nat.mul_comm, Nat.mod_eq_of_lt hlt]
    have hle : (pause + 1) * limit ≤ 31 * limit :=
      Nat.mul_le_mul_right _ (by omega)
    apply not_sameDecisions_of_round_up (pause + 1) (limit - 2) hhigh (by omega)
      (by omega)
    rw [hmod]
    have hpast' : (30 : ℚ) < (limit % 60 * (pause + 1) : ℕ) := by
      exact_mod_cast hpast
    have hlt' : ((limit % 60 * (pause + 1) : ℕ) : ℚ) < 60 := by
      exact_mod_cast hlt
    apply tostring_past_middle (by omega) (by omega) <;> linarith

theorem tostring_nineteen_twentieths {count : ℕ} (hlow : 10 ^ 12 ≤ count)
    (hhigh : count < 10 ^ 13) : tostring (count + 19 / 20) = count + 1 := by
  have hscaled : (count + 19 / 20 : ℚ) * 10 ^ 1 =
      (10 * count + 9 : ℕ) + 1 / 2 := by
    push_cast
    ring
  have hround : roundHalfEven ((10 * count + 9 : ℕ) + 1 / 2 : ℚ) =
      (10 * count + 9 : ℕ) + 1 := by
    exact_mod_cast roundHalfEven_middle_of_odd (n := (10 * count + 9 : ℕ))
      (by omega)
  rw [tostring_of_scaled 1 hscaled (by omega) (by omega) (by norm_num)
    (by norm_num), hround]
  push_cast
  ring

theorem exists_wait_nineteen_twentieths (hthree : limit % 3 = 0)
    (hodd : limit % 2 = 1) (hfive : limit % 5 ≠ 0) :
    ∃ wait < 20, wait * limit % 60 = 57 := by
  have hrest : ∀ r < 60, r % 3 = 0 → r % 2 = 1 → r % 5 ≠ 0 →
      ∃ wait < 20, wait * r % 60 = 57 := by decide
  obtain ⟨wait, hwait, hmod⟩ := hrest (limit % 60) (Nat.mod_lt _ (by decide))
    (by omega) (by omega) (by omega)
  exact ⟨wait, hwait, by rwa [Nat.mul_mod_mod] at hmod⟩

theorem not_sameDecisions_of_nineteen_twentieths
    (hlow : 10 ^ 12 + 1 < limit) (hhigh : limit ≤ 10 ^ 13 + 1)
    (hthree : limit % 3 = 0) (hodd : limit % 2 = 1) (hfive : limit % 5 ≠ 0) :
    ¬ SameDecisions limit := by
  obtain ⟨wait, hwait, hmod⟩ :=
    exists_wait_nineteen_twentieths hthree hodd hfive
  have hle : wait * limit ≤ 20 * limit := Nat.mul_le_mul_right _ hwait.le
  apply not_sameDecisions_of_round_up wait (limit - 2) (by omega) (by omega)
    (by omega)
  have hfraction : ((wait * limit % 60 : ℕ) : ℚ) / 60 = 19 / 20 := by
    rw [hmod]
    norm_num
  rw [hfraction]
  exact tostring_nineteen_twentieths (by omega) (by omega)

/-! ## Counts of more than fourteen digits -/

theorem tostring_tens {x : ℚ} (hlow : 10 ^ 14 ≤ x) (hhigh : x < 10 ^ 15) :
    tostring x = roundHalfEven (x / 10) * 10 := by
  have hunit : unit 10 14 14 = 10 := by norm_num [unit]
  have h : roundSignificant 10 14 x =
      roundHalfEven (x / unit 10 14 14) * unit 10 14 14 :=
    roundSignificant_eq (by decide) (by exact_mod_cast hlow)
      (by exact_mod_cast hhigh)
  rwa [hunit] at h

theorem tostring_hundred_trillion_five : tostring (10 ^ 14 + 5) = 10 ^ 14 := by
  have hmiddle : (10 ^ 14 + 5 : ℚ) / 10 = (10 ^ 13 : Int) + 1 / 2 := by norm_num
  rw [tostring_tens (by norm_num) (by norm_num), hmiddle,
    roundHalfEven_middle_of_even (by norm_num)]
  norm_num

theorem tostring_hundred_trillion_six :
    tostring (10 ^ 14 + 6) = 10 ^ 14 + 10 := by
  have hround : roundHalfEven ((10 ^ 14 + 6 : ℚ) / 10) = 10 ^ 13 + 1 := by
    apply roundHalfEven_eq <;> norm_num
  rw [tostring_tens (by norm_num) (by norm_num), hround]
  norm_num

theorem found_id_burst {n rest : ℕ} (hrest : limit = n + rest) :
    found id limit (fun _ => 0) n = rest := by
  have hstored : storedCount id limit (fun _ => 0) n = rest :=
    storedCount_drain hrest (fun _ _ => rfl) (fun _ _ => rfl)
  rw [found_of_same_reading rfl, hstored]
  rw [hstored, Int.cast_natCast]
  exact_mod_cast (by omega : rest ≤ limit)

theorem found_at_zero (n : ℕ) :
    found store limit (fun _ => 0) n =
      min (storedCount store limit (fun _ => 0) n) limit := by
  rw [found, refilled, sub_self, max_self, zero_mul, add_zero, Int.cast_natCast]

theorem le_storedCount_of_stuck (hlimit : 10 ^ 14 + 7 ≤ limit) (n : ℕ) :
    10 ^ 14 + 7 ≤ storedCount tostring limit (fun _ => 0) n := by
  have hlimit' : (10 ^ 14 + 7 : ℚ) ≤ limit := by exact_mod_cast hlimit
  induction n with
  | zero => exact hlimit'
  | succ n ih =>
      have hfound : 10 ^ 14 + 7 ≤ found tostring limit (fun _ => 0) n := by
        rw [found_at_zero]
        exact le_min ih hlimit'
      have hspend : 10 ^ 14 + 6 ≤
          spend (found tostring limit (fun _ => 0) n) := by
        rw [spend_of_one_le (by linarith)]
        linarith
      have hround := tostring_mono (by norm_num) hspend
      rw [tostring_hundred_trillion_six] at hround
      change _ ≤ tostring (spend (found tostring limit (fun _ => 0) n))
      linarith

theorem found_hundred_trillion (hlow : 10 ^ 14 + 1 < limit)
    (hhigh : limit ≤ 10 ^ 14 + 6) :
    found tostring limit (fun _ => 0) (1 + 10 ^ 14) = 0 := by
  have hlow' : (10 ^ 14 + 1 : ℚ) < limit := by exact_mod_cast hlow
  have hhigh' : (limit : ℚ) ≤ 10 ^ 14 + 6 := by exact_mod_cast hhigh
  have hround : tostring (limit - 1) = 10 ^ 14 := by
    apply le_antisymm
    · rw [← tostring_hundred_trillion_five]
      exact tostring_mono (by linarith) (by linarith)
    · have hwhole : tostring (10 ^ 14) = 10 ^ 14 := by
        exact_mod_cast tostring_natCast (le_refl (10 ^ 14))
      calc
        10 ^ 14 = tostring (10 ^ 14) := hwhole.symm
        _ ≤ _ := tostring_mono (by norm_num) (by linarith)
  have hfirst : storedCount tostring limit (fun _ => 0) 1 = 10 ^ 14 := by
    have hfull : found tostring limit (fun _ => 0) 0 = limit :=
      found_of_same_reading rfl le_rfl
    change tostring (spend (found tostring limit (fun _ => 0) 0)) = _
    rw [hfull, spend_of_one_le (by linarith), hround]
  have hstored : storedCount tostring limit (fun _ => 0) (1 + 10 ^ 14) = 0 := by
    apply storedCount_burst _ le_rfl
    · push_cast
      linarith
    · exact fun _ _ => rfl
    · intro n hn
      exact_mod_cast tostring_natCast (n := n + 0) (by omega)
    · rw [hfirst]
      norm_num
  rw [found_of_same_reading rfl, hstored]
  rw [hstored, Int.cast_natCast]
  linarith

theorem not_sameDecisions_of_fifteen_digits (hlimit : 10 ^ 14 + 1 < limit) :
    ¬ SameDecisions limit := by
  by_cases hstuck : 10 ^ 14 + 7 ≤ limit
  · apply not_sameDecisions (fun _ => 0) (fun _ => le_rfl) limit
    have hlimit' : (10 ^ 14 + 7 : ℚ) ≤ limit := by exact_mod_cast hstuck
    have htext : 1 ≤ found tostring limit (fun _ => 0) limit := by
      have hstored := le_storedCount_of_stuck hstuck limit
      rw [found_at_zero]
      exact le_min (by linarith) (by linarith)
    have hexact : found id limit (fun _ => 0) limit = (0 : ℕ) :=
      found_id_burst rfl
    rw [hexact]
    exact fun hsame => absurd (hsame.mp htext) (by norm_num)
  · apply not_sameDecisions (fun _ => 0) (fun _ => le_rfl) (1 + 10 ^ 14)
    have hexact : 1 ≤ found id limit (fun _ => 0) (1 + 10 ^ 14) := by
      obtain ⟨rest, hrest⟩ : ∃ rest, limit = 1 + 10 ^ 14 + (rest + 1) :=
        ⟨limit - 10 ^ 14 - 2, by omega⟩
      rw [found_id_burst hrest]
      exact_mod_cast Nat.le_add_left 1 rest
    rw [found_hundred_trillion hlimit (by omega)]
    exact fun hsame => absurd (hsame.mpr hexact) (by norm_num)

end RedisRateLimiter

end RateLimitedGateway.Infra
