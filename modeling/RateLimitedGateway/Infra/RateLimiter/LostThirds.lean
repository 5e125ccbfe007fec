import RateLimitedGateway.Infra.RateLimiter.LostDigits

/-!
# Fractions that are rounded down

What the text takes from a fraction is missing when the refill of the next
seconds would have made it whole.  A third of a token has no decimal at all;
a quarter has none with one digit after the point.
-/

namespace RateLimitedGateway.Infra

open RateLimitedGateway.Foundation

namespace RedisRateLimiter

variable {store : ℚ → ℚ}

/-! ## Thirds -/

def refilling (limit wait calls : ℕ) (n : ℕ) : Int :=
  if n < limit then 0
  else if n < limit + calls then wait
  else if n < limit + 2 * calls then 2 * wait
  else 3 * wait

theorem refilling_le_succ (limit wait calls n : ℕ) :
    refilling limit wait calls n ≤ refilling limit wait calls (n + 1) := by
  unfold refilling
  split_ifs <;> omega

section Thirds

variable {limit wait calls : ℕ}

theorem refilling_start {i : ℕ} (hi : i < 3) (hlimit : 0 < limit)
    (hcalls : 0 < calls) :
    refilling limit wait calls (limit + i * calls) =
      refilling limit wait calls (limit + i * calls - 1) + wait := by
  unfold refilling
  obtain rfl | rfl | rfl : i = 0 ∨ i = 1 ∨ i = 2 := by omega
  all_goals split_ifs <;> omega

theorem refilling_same {i k : ℕ} (hi : i < 3) (hk : k + 1 < calls) :
    refilling limit wait calls (limit + i * calls + 1 + k) =
      refilling limit wait calls (limit + i * calls + 1 + k - 1) := by
  unfold refilling
  obtain rfl | rfl | rfl : i = 0 ∨ i = 1 ∨ i = 2 := by omega
  all_goals split_ifs <;> omega

structure Leaves (store : ℚ → ℚ) (calls : ℕ) (rest : ℕ → ℚ) : Prop where
  zero : rest 0 = 0
  nonneg : ∀ i, 0 ≤ rest i
  le_two_thirds : ∀ i < 3, rest i ≤ 2 / 3
  le_one : rest 3 ≤ 1
  round : ∀ i < 3,
    store ((calls : ℚ) - 1 + rest i + 1 / 3) = calls - 1 + rest (i + 1)
  kept : ∀ i ≤ 3, ∀ k < calls, store (k + rest i) = k + rest i

theorem Leaves.le_one_of_lt {rest : ℕ → ℚ} (hleaves : Leaves store calls rest)
    {i : ℕ} (hi : i < 3) : rest (i + 1) ≤ 1 := by
  rcases (Nat.succ_le_of_lt hi).lt_or_eq with hlt | heq
  · exact (hleaves.le_two_thirds (i + 1) hlt).trans (by norm_num)
  · rw [Nat.succ_eq_add_one] at heq
    rw [heq]
    exact hleaves.le_one

theorem Leaves.storedCount_succ {rest : ℕ → ℚ}
    (hleaves : Leaves store calls rest) (hcalls : 0 < calls)
    (hroom : calls + 1 ≤ limit)
    (hrefill : (wait : ℚ) * (limit / windowSeconds) = calls + 1 / 3) {i : ℕ}
    (hi : i < 3)
    (hstored : storedCount store limit (refilling limit wait calls)
      (limit + i * calls) = rest i) :
    storedCount store limit (refilling limit wait calls)
      (limit + (i + 1) * calls) = rest (i + 1) := by
  obtain ⟨k, rfl⟩ : ∃ k, calls = k + 1 := ⟨calls - 1, by omega⟩
  have hroom' : (k : ℚ) + 2 ≤ limit := by exact_mod_cast hroom
  have hk : (0 : ℚ) ≤ k := Nat.cast_nonneg k
  have hrest := hleaves.nonneg i
  have hthird := hleaves.le_two_thirds i hi
  have hle := hleaves.le_one_of_lt hi
  have hround : store (rest i + wait * (limit / windowSeconds) - 1) =
      k + rest (i + 1) := by
    have h := hleaves.round i hi
    push_cast at h hrefill
    rw [add_sub_cancel_right] at h
    rw [← h, hrefill]
    congr 1
    ring
  push_cast at hrefill
  have hphase : storedCount store limit (refilling limit wait (k + 1))
      (limit + i * (k + 1) + 1 + k) = rest (i + 1) := by
    apply storedCount_phase hstored
      (refilling_start hi (by omega) (by omega)) _ _ hround
      (hleaves.nonneg (i + 1))
    · linarith
    · exact fun j hj => refilling_same hi (by omega)
    · exact fun m hm => hleaves.kept (i + 1) hi m (by omega)
    · rw [hrefill]
      linarith
    · rw [hrefill]
      linarith
  have hindex : limit + (i + 1) * (k + 1) = limit + i * (k + 1) + 1 + k := by
    ring
  rw [hindex, hphase]

theorem Leaves.found_eq {rest : ℕ → ℚ} (hleaves : Leaves store calls rest)
    (hcalls : 0 < calls) (hroom : calls + 1 ≤ limit)
    (hwhole : ∀ n < limit, store (n : ℚ) = n)
    (hrefill : (wait : ℚ) * (limit / windowSeconds) = calls + 1 / 3) :
    found store limit (refilling limit wait calls) (limit + 3 * calls) =
      rest 3 := by
  have hstored : ∀ i ≤ 3, storedCount store limit
      (refilling limit wait calls) (limit + i * calls) = rest i := by
    intro i
    induction i with
    | zero =>
        intro _
        have hdrained : storedCount store limit (refilling limit wait calls)
            limit = (0 : ℕ) := by
          apply storedCount_drain (Nat.add_zero limit).symm hwhole
          intro i hi
          unfold refilling
          split_ifs <;> omega
        rw [hleaves.zero, Nat.zero_mul, Nat.add_zero, hdrained, Nat.cast_zero]
    | succ i ih =>
        intro hi
        exact hleaves.storedCount_succ hcalls hroom hrefill hi (ih (by omega))
  have hsame : refilling limit wait calls (limit + 3 * calls) =
      refilling limit wait calls (limit + 3 * calls - 1) := by
    unfold refilling
    split_ifs <;> omega
  have hlimit : (1 : ℚ) ≤ limit := by
    exact_mod_cast (by omega : 1 ≤ limit)
  have hle := hleaves.le_one
  rw [found_of_same_reading hsame, hstored 3 le_rfl]
  rw [hstored 3 le_rfl, Int.cast_natCast]
  linarith

theorem leaves_id (calls : ℕ) : Leaves id calls fun i => (i : ℚ) / 3 where
  zero := by simp
  nonneg i := by positivity
  le_two_thirds i hi := by
    have : (i : ℚ) ≤ 2 := by exact_mod_cast Nat.le_of_lt_succ hi
    linarith
  le_one := by norm_num
  round i hi := by
    simp only [id_eq]
    push_cast
    ring
  kept _ _ _ _ := rfl

structure TextDigits (calls digits : ℕ) : Prop where
  le : digits ≤ 14
  fits : calls * 10 ^ digits ≤ 10 ^ 14
  fills : calls = 1 ∧ digits = 14 ∨ 10 ^ 13 ≤ (calls - 1) * 10 ^ digits

theorem exists_textDigits (hcalls : 0 < calls) (hle : calls ≤ 10 ^ 14) :
    ∃ digits, TextDigits calls digits := by
  obtain rfl | hlt : calls = 1 ∨ 1 < calls := by omega
  · exact ⟨14, le_rfl, by norm_num, .inl ⟨rfl, rfl⟩⟩
  · have hne : calls - 1 ≠ 0 := by omega
    have hlog : Nat.log 10 (calls - 1) < 14 :=
      Nat.log_lt_of_lt_pow hne (by omega)
    have hlow := Nat.pow_log_le_self 10 hne
    have hhigh := Nat.lt_pow_succ_log_self (by decide : 1 < 10) (calls - 1)
    refine ⟨13 - Nat.log 10 (calls - 1), by omega, ?_, .inr ?_⟩
    · calc
        calls * 10 ^ (13 - Nat.log 10 (calls - 1))
            ≤ 10 ^ (Nat.log 10 (calls - 1) + 1) *
              10 ^ (13 - Nat.log 10 (calls - 1)) :=
          Nat.mul_le_mul_right _ (by omega)
        _ = 10 ^ 14 := by
          rw [← pow_add]
          congr 1
          omega
    · calc
        10 ^ 13 = 10 ^ Nat.log 10 (calls - 1) *
              10 ^ (13 - Nat.log 10 (calls - 1)) := by
          rw [← pow_add]
          congr 1
          omega
        _ ≤ (calls - 1) * 10 ^ (13 - Nat.log 10 (calls - 1)) :=
          Nat.mul_le_mul_right _ hlow

theorem exists_third (digits : ℕ) : ∃ third, 10 ^ digits = 3 * third + 1 := by
  have hmod : 10 ^ digits % 3 = 1 := by
    rw [Nat.pow_mod]
    norm_num
  exact ⟨10 ^ digits / 3, by omega⟩

theorem TextDigits.tostring_third {digits third i : ℕ}
    (htext : TextDigits calls digits) (hcalls : 0 < calls)
    (hthird : 10 ^ digits = 3 * third + 1) (hi : i < 3) :
    tostring ((calls : ℚ) - 1 + (i * third : ℕ) / 10 ^ digits + 1 / 3) =
      calls - 1 + ((i + 1) * third : ℕ) / 10 ^ digits := by
  have hscale : (0 : ℚ) < 10 ^ digits := by positivity
  have hthird' : (10 : ℚ) ^ digits = 3 * third + 1 := by exact_mod_cast hthird
  obtain ⟨below, rfl⟩ : ∃ below, calls = below + 1 := ⟨calls - 1, by omega⟩
  obtain ⟨-, hfits, hfills⟩ := htext
  rw [Nat.add_sub_cancel] at hfills
  -- the scaled number is a third past a whole one
  have hscaled : (((below + 1 : ℕ) : ℚ) - 1 +
      (i * third : ℕ) / 10 ^ digits + 1 / 3) * 10 ^ digits =
        (below * 10 ^ digits + (i + 1) * third : ℕ) + 1 / 3 := by
    rw [add_mul, add_mul, div_mul_cancel₀ _ hscale.ne']
    push_cast
    rw [hthird']
    ring
  have hlow : 10 ^ 13 ≤ below * 10 ^ digits + (i + 1) * third := by
    have hself : third ≤ (i + 1) * third :=
      Nat.le_mul_of_pos_left third (Nat.succ_pos i)
    rcases hfills with ⟨-, rfl⟩ | hbelow
    · omega
    · omega
  have hhigh : below * 10 ^ digits + (i + 1) * third < 10 ^ 14 := by
    have hmost : (i + 1) * third ≤ 3 * third := Nat.mul_le_mul_right _ hi
    rw [Nat.succ_mul] at hfits
    omega
  rw [tostring_of_scaled digits hscaled hlow hhigh (by norm_num) (by norm_num)]
  generalize hwhole : below * 10 ^ digits + (i + 1) * third = whole
  have hround : roundHalfEven (whole + 1 / 3 : ℚ) = (whole : Int) := by
    apply roundHalfEven_eq <;> push_cast <;> linarith
  rw [hround, ← hwhole]
  push_cast
  rw [add_div, mul_div_cancel_right₀ _ hscale.ne', add_sub_cancel_right]

theorem leaves_tostring {digits third : ℕ} (htext : TextDigits calls digits)
    (hcalls : 0 < calls) (hthird : 10 ^ digits = 3 * third + 1) :
    Leaves tostring calls fun i => (i * third : ℕ) / 10 ^ digits := by
  have hscale : (0 : ℚ) < 10 ^ digits := by positivity
  have hthird' : (10 : ℚ) ^ digits = 3 * third + 1 := by exact_mod_cast hthird
  have hnonneg : (0 : ℚ) ≤ third := Nat.cast_nonneg third
  have hle : ∀ i ≤ 3, ((i * third : ℕ) : ℚ) / 10 ^ digits ≤ i / 3 := by
    intro i hi
    have hi' : (0 : ℚ) ≤ i := Nat.cast_nonneg i
    rw [div_le_div_iff₀ hscale (by norm_num), hthird']
    push_cast
    linarith
  refine ⟨by simp, fun i => by positivity, ?_, ?_, ?_, ?_⟩
  · intro i hi
    have hmost : (i : ℚ) ≤ 2 := by exact_mod_cast Nat.le_of_lt_succ hi
    exact (hle i hi.le).trans (by linarith)
  · exact (hle 3 le_rfl).trans (by norm_num)
  · exact fun i hi => htext.tostring_third hcalls hthird hi
  · intro i hi k hk
    have hdigits : HasDigits digits (k + (i * third : ℕ) / 10 ^ digits : ℚ) :=
      (hasDigits_natCast digits k).add ⟨i * third, rfl⟩
    apply hdigits.tostring_eq htext.le
    have hcalls' : (k : ℚ) + 1 ≤ calls := by exact_mod_cast hk
    have hmost : (i : ℚ) ≤ 3 := by exact_mod_cast hi
    have hfits : (calls : ℚ) * 10 ^ digits ≤
        10 ^ (14 - digits) * 10 ^ digits := by
      rw [← pow_add, Nat.sub_add_cancel htext.le]
      exact_mod_cast htext.fits
    have hroom : (calls : ℚ) ≤ 10 ^ (14 - digits) :=
      le_of_mul_le_mul_right hfits hscale
    linarith [hle i hi]

theorem not_sameDecisions_of_third (wait calls : ℕ)
    (hlimit : limit ≤ 10 ^ 14 + 1) (hcalls : 0 < calls)
    (hroom : calls + 1 ≤ limit)
    (hwait : wait * limit = 60 * calls + 20) : ¬ SameDecisions limit := by
  have hrefill : (wait : ℚ) * (limit / windowSeconds) = calls + 1 / 3 := by
    rw [refill_eq hwait]
    norm_num
  obtain ⟨digits, htext⟩ := exists_textDigits hcalls (by omega)
  obtain ⟨third, hthird⟩ := exists_third digits
  have hexact : found id limit (refilling limit wait calls)
      (limit + 3 * calls) = (3 : ℕ) / 3 :=
    (leaves_id calls).found_eq hcalls hroom (fun _ _ => rfl) hrefill
  have hrounded : found tostring limit (refilling limit wait calls)
      (limit + 3 * calls) = (3 * third : ℕ) / 10 ^ digits :=
    (leaves_tostring htext hcalls hthird).found_eq hcalls hroom
      (fun n hn => tostring_natCast (by omega)) hrefill
  apply not_sameDecisions _ (refilling_le_succ limit wait calls)
    (limit + 3 * calls)
  rw [hexact, hrounded]
  have hless : ((3 * third : ℕ) : ℚ) / 10 ^ digits < 1 := by
    rw [div_lt_one (by positivity)]
    exact_mod_cast (by omega : 3 * third < 10 ^ digits)
  exact fun hsame => absurd (hsame.mpr (by norm_num)) (not_le.mpr hless)

def twice (n : ℕ) : Int :=
  if n = 0 then 0 else if n = 1 then 20 else 60

theorem found_twice (hzero : store 0 = 0) (hthird : store (1 / 3) ≤ 1 / 3) :
    found store 1 twice 2 = store (1 / 3) + 2 / 3 := by
  have hfirst : storedCount store 1 twice 1 = 0 := by
    have hfull : found store 1 twice 0 = 1 := found_of_same_reading rfl le_rfl
    rw [storedCount_succ, hfull, spend_of_one_le le_rfl, sub_self, hzero]
  have hsecond : storedCount store 1 twice 2 = store (1 / 3) := by
    have hfound : found store 1 twice 1 = 1 / 3 := by
      rw [found, refilled, hfirst, windowSeconds_cast]
      norm_num [twice]
    rw [storedCount_succ, hfound, spend_of_lt_one (by norm_num)]
  rw [found, refilled, hsecond, windowSeconds_cast]
  norm_num [twice]
  linarith

theorem tostring_one_third :
    tostring (1 / 3) = 33333333333333 / 10 ^ 14 := by
  have hscaled : (1 / 3 : ℚ) * 10 ^ 14 = (33333333333333 : ℕ) + 1 / 3 := by
    norm_num
  have hround : roundHalfEven ((33333333333333 : ℕ) + 1 / 3 : ℚ) =
      33333333333333 := by
    apply roundHalfEven_eq <;> norm_num
  rw [tostring_of_scaled 14 hscaled (by norm_num) (by norm_num) (by norm_num)
    (by norm_num), hround]
  norm_num

theorem not_sameDecisions_one : ¬ SameDecisions 1 := by
  have hclock : ∀ k, twice k ≤ twice (k + 1) := by
    intro k
    rcases k with _ | _ | k <;> simp [twice]
  have hzero : tostring 0 = 0 := by
    exact_mod_cast tostring_natCast (Nat.zero_le (10 ^ 14))
  have hexact : found id 1 twice 2 = 1 / 3 + 2 / 3 := found_twice rfl le_rfl
  have htext : found tostring 1 twice 2 = tostring (1 / 3) + 2 / 3 := by
    apply found_twice hzero
    rw [tostring_one_third]
    norm_num
  intro hsame
  have hdiffer := sameDecisions_iff.mp hsame twice hclock 2
  rw [hexact, htext, tostring_one_third] at hdiffer
  norm_num at hdiffer

theorem not_sameDecisions_of_not_three_dvd (hpos : 0 < limit)
    (hlimit : limit ≤ 10 ^ 14 + 1) (hthree : limit % 3 ≠ 0) :
    ¬ SameDecisions limit := by
  obtain rfl | hone | htwo :
      limit = 1 ∨ (1 < limit ∧ limit % 3 = 1) ∨ limit % 3 = 2 := by
    omega
  · exact not_sameDecisions_one
  · apply not_sameDecisions_of_third 20 (limit / 3) hlimit <;> omega
  · apply not_sameDecisions_of_third 40 (2 * limit / 3) hlimit <;> omega

end Thirds

/-! ## Quarters -/

section Quarters

variable {limit wait pause whole calls : ℕ}

def pausingTwice (m k wait pause : ℕ) (n : ℕ) : Int :=
  if n < m then 0 else if n < m + k then wait else wait + pause

theorem pausingTwice_le_succ (m k wait pause n : ℕ) :
    pausingTwice m k wait pause n ≤ pausingTwice m k wait pause (n + 1) := by
  unfold pausingTwice
  split_ifs <;> omega

theorem pausingTwice_first (m k wait pause : ℕ) (hm : 0 < m) (hk : 0 < k) :
    pausingTwice m k wait pause m =
      pausingTwice m k wait pause (m - 1) + wait := by
  unfold pausingTwice
  split_ifs <;> omega

theorem pausingTwice_second (m k wait pause : ℕ) (hk : 0 < k) :
    pausingTwice m k wait pause (m + k) =
      pausingTwice m k wait pause (m + k - 1) + pause := by
  unfold pausingTwice
  split_ifs <;> omega

theorem pausingTwice_same {m k wait pause n : ℕ} (hm : n ≠ m)
    (hk : n ≠ m + k) :
    pausingTwice m k wait pause n = pausingTwice m k wait pause (n - 1) := by
  unfold pausingTwice
  split_ifs <;> omega

theorem storedCount_pausingTwice {m k left : ℕ} {rest : ℚ} (hm : 0 < m)
    (hlimit : limit = m + left)
    (hwait : (left : ℚ) + wait * (limit / windowSeconds) = limit - 1 + 1 / 4)
    (hcalls : limit = k + 2) (hwhole : ∀ n < limit, store (n : ℚ) = n)
    (hround : store (k + 1 / 4) = k + rest) (hrest : 0 ≤ rest)
    (hle : rest ≤ 1 / 4) (hkept : ∀ n < k, store (n + rest) = n + rest) :
    storedCount store limit (pausingTwice m (k + 1) wait pause) (m + 1 + k) =
      rest := by
  have hlimit' : (limit : ℚ) = k + 2 := by exact_mod_cast hcalls
  have hk : (0 : ℚ) ≤ k := Nat.cast_nonneg k
  have hdrained : storedCount store limit
      (pausingTwice m (k + 1) wait pause) m = left := by
    apply storedCount_drain hlimit hwhole
    exact fun i hi => pausingTwice_same (by omega) (by omega)
  apply storedCount_phase hdrained
    (pausingTwice_first m (k + 1) wait pause hm (by omega)) _ _ _ hrest
  · linarith
  · exact fun i hi => pausingTwice_same (by omega) (by omega)
  · exact hkept
  · rw [hwait]
    linarith
  · rw [hwait]
    linarith
  · rw [hwait, ← hround, hlimit']
    congr 1
    ring

theorem found_pausingTwice {m k calls : ℕ} {rest : ℚ}
    (hstored : storedCount store limit (pausingTwice m (k + 1) wait pause)
      (m + 1 + k) = rest)
    (hpause : (pause : ℚ) * (limit / windowSeconds) = calls + 1 + 3 / 4)
    (hroom : calls + 2 ≤ limit) (hrest : 0 ≤ rest) (hle : rest ≤ 1 / 4)
    (hkept : ∀ n ≤ calls, store (n + (rest + 3 / 4)) = n + (rest + 3 / 4)) :
    found store limit (pausingTwice m (k + 1) wait pause)
      (m + (k + 1) + 1 + calls) = rest + 3 / 4 := by
  have hroom' : (calls : ℚ) + 2 ≤ limit := by exact_mod_cast hroom
  have hcalls : (0 : ℚ) ≤ calls := Nat.cast_nonneg calls
  have hindex : m + 1 + k = m + (k + 1) := by omega
  rw [hindex] at hstored
  have hused : storedCount store limit (pausingTwice m (k + 1) wait pause)
      (m + (k + 1) + 1 + calls) = rest + 3 / 4 := by
    apply storedCount_phase hstored
      (pausingTwice_second m (k + 1) wait pause (by omega))
    · rw [hpause]
      linarith
    · rw [hpause]
      linarith
    · rw [hpause, ← hkept calls le_rfl]
      congr 1
      ring
    · linarith
    · linarith
    · exact fun i hi => pausingTwice_same (by omega) (by omega)
    · exact fun n hn => hkept n hn.le
  rw [found_of_same_reading (pausingTwice_same (by omega) (by omega)), hused]
  rw [hused, Int.cast_natCast]
  linarith

theorem tostring_quarter {count : ℕ} (hlow : 10 ^ 12 ≤ count)
    (hhigh : count < 10 ^ 13) : tostring (count + 1 / 4) = count + 1 / 5 := by
  have hscaled : (count + 1 / 4 : ℚ) * 10 ^ 1 =
      (10 * count + 2 : ℕ) + 1 / 2 := by
    push_cast
    ring
  have hround : roundHalfEven ((10 * count + 2 : ℕ) + 1 / 2 : ℚ) =
      (10 * count + 2 : ℕ) := by
    exact_mod_cast roundHalfEven_middle_of_even (n := (10 * count + 2 : ℕ))
      (by omega)
  rw [tostring_of_scaled 1 hscaled (by omega) (by omega) (by norm_num)
    (by norm_num), hround]
  push_cast
  ring

/-- A quarter that is rounded to a fifth is missing when three more come. -/
theorem not_sameDecisions_of_quarter (wait whole pause calls : ℕ)
    (hlow : 10 ^ 12 + 2 ≤ limit) (hhigh : limit ≤ 10 ^ 13 + 1)
    (hwait : wait * limit = 60 * whole + 15)
    (hpause : pause * limit = 60 * (calls + 1) + 45) (hshort : wait ≤ 3)
    (hshort' : pause ≤ 3) : ¬ SameDecisions limit := by
  have hwhole : wait * limit ≤ 3 * limit := Nat.mul_le_mul_right _ hshort
  have hcalls : pause * limit ≤ 3 * limit := Nat.mul_le_mul_right _ hshort'
  obtain ⟨k, hk⟩ : ∃ k, limit = k + 2 := ⟨limit - 2, by omega⟩
  obtain ⟨left, hleft⟩ : ∃ left, limit = whole + 1 + left :=
    ⟨limit - whole - 1, by omega⟩
  have hleft' : (limit : ℚ) = whole + 1 + left := by exact_mod_cast hleft
  have hwait' : (left : ℚ) + wait * (limit / windowSeconds) =
      limit - 1 + 1 / 4 := by
    rw [refill_eq hwait]
    push_cast
    linarith
  have hpause' : (pause : ℚ) * (limit / windowSeconds) = calls + 1 + 3 / 4 := by
    rw [refill_eq hpause]
    push_cast
    ring
  have hexact : found id limit (pausingTwice (whole + 1) (k + 1) wait pause)
      (whole + 1 + (k + 1) + 1 + calls) = 1 / 4 + 3 / 4 := by
    apply found_pausingTwice _ hpause' (by omega) (by norm_num) le_rfl
      (fun _ _ => rfl)
    exact storedCount_pausingTwice (by omega) hleft hwait' hk (fun _ _ => rfl)
      rfl (by norm_num) le_rfl (fun _ _ => rfl)
  have htext : found tostring limit
      (pausingTwice (whole + 1) (k + 1) wait pause)
      (whole + 1 + (k + 1) + 1 + calls) = 1 / 5 + 3 / 4 := by
    have hfifth : HasDigits 1 (1 / 5) := ⟨2, by norm_num⟩
    have hnineteen : HasDigits 2 (1 / 5 + 3 / 4) := ⟨95, by norm_num⟩
    apply found_pausingTwice _ hpause' (by omega) (by norm_num) (by norm_num)
    · intro n hn
      apply ((hasDigits_natCast 2 n).add hnineteen).tostring_eq (by omega)
      have hle : (n : ℚ) + 1 ≤ (10 ^ 12 : ℕ) := by
        exact_mod_cast (by omega : n + 1 ≤ 10 ^ 12)
      norm_num at hle ⊢
      linarith
    · apply storedCount_pausingTwice (by omega) hleft hwait' hk
        (fun n hn => tostring_natCast (by omega))
        (tostring_quarter (by omega) (by omega)) (by norm_num) (by norm_num)
      intro n hn
      apply ((hasDigits_natCast 1 n).add hfifth).tostring_eq (by omega)
      have hle : (n : ℚ) + 1 ≤ (10 ^ 13 : ℕ) := by
        exact_mod_cast (by omega : n + 1 ≤ 10 ^ 13)
      norm_num at hle ⊢
      linarith
  apply not_sameDecisions _ (pausingTwice_le_succ _ _ _ _)
    (whole + 1 + (k + 1) + 1 + calls)
  rw [hexact, htext]
  norm_num

theorem not_sameDecisions_of_fifteen_dvd (hlow : 10 ^ 12 + 1 < limit)
    (hhigh : limit ≤ 10 ^ 13 + 1) (hfifteen : limit % 15 = 0)
    (hodd : limit % 2 = 1) : ¬ SameDecisions limit := by
  obtain hquarter | hthree : limit % 60 = 15 ∨ limit % 60 = 45 := by omega
  · exact not_sameDecisions_of_quarter 1 (limit / 60) 3 (3 * limit / 60 - 1)
      (by omega) hhigh (by omega) (by omega) (by omega) (by omega)
  · exact not_sameDecisions_of_quarter 3 (3 * limit / 60) 1 (limit / 60 - 1)
      (by omega) hhigh (by omega) (by omega) (by omega) (by omega)

end Quarters

/-! ## Which limits the text is right for -/

/--
No decision depends on the way of the count through text, exactly if the digits
of a second's refill leave room enough for the whole tokens.
-/
theorem sameDecisions_iff_textFits {limit : Int} (hlimit : 0 < limit) :
    SameDecisions limit ↔ TextFits limit := by
  refine ⟨?_, fun hfits => hfits.sameDecisions hlimit⟩
  obtain ⟨limit, rfl⟩ := Int.eq_ofNat_of_zero_le hlimit.le
  contrapose
  intro hunfit
  unfold TextFits at hunfit
  rcases lt_or_ge (10 ^ 14 + 1) limit with hlarge | hle
  · exact not_sameDecisions_of_fifteen_digits hlarge
  rcases lt_or_ge (10 ^ 13 + 1) limit with hlow | hle
  · exact not_sameDecisions_of_fourteen_digits hlow (by omega) (by omega)
  by_cases hthree : limit % 3 = 0
  · by_cases hfive : limit % 5 = 0
    · exact not_sameDecisions_of_fifteen_dvd (by omega) hle (by omega)
        (by omega)
    · exact not_sameDecisions_of_nineteen_twentieths (by omega) hle hthree
        (by omega) hfive
  · exact not_sameDecisions_of_not_three_dvd (by omega) (by omega) hthree

theorem sameDecisions_iff_textFits_sixty :
    TextFits 60 ∧ SameDecisions 60 := by
  have hfits : TextFits 60 := by
    left
    decide
  exact ⟨hfits, (sameDecisions_iff_textFits (by decide)).mpr hfits⟩

theorem text_loses_a_token :
    ¬ ∀ limit : Int, 0 < limit → SameDecisions limit := by
  intro hsame
  exact not_sameDecisions_one (hsame 1 (by decide))

end RedisRateLimiter

end RateLimitedGateway.Infra
