import Mathlib.Algebra.Order.Floor.Ring
import Mathlib.Algebra.Order.Ring.Rat
import Mathlib.Data.Int.Log
import Mathlib.Data.Rat.Floor
import Mathlib.Tactic.FieldSimp
import Mathlib.Tactic.Linarith
import Mathlib.Tactic.Positivity

/-!
# Rounding of rationals

To an integer, towards zero or to the nearest one with ties to even; and to a
number of significant digits in some base, which is how a floating-point format
rounds as long as the exponent is in its range.
-/

namespace RateLimitedGateway.Foundation

def truncate (x : ℚ) : Int := if 0 ≤ x then ⌊x⌋ else ⌈x⌉

theorem truncate_of_nonneg {x : ℚ} (hx : 0 ≤ x) : truncate x = ⌊x⌋ :=
  if_pos hx

theorem truncate_of_nonpos {x : ℚ} (hx : x ≤ 0) : truncate x = ⌈x⌉ := by
  rcases hx.lt_or_eq with hneg | rfl
  · exact if_neg (not_le.mpr hneg)
  · simp [truncate]

theorem ceil_eq_floor_add_one_iff (x : ℚ) :
    ⌈x⌉ = ⌊x⌋ + 1 ↔ ¬ ∃ n : Int, x = n := by
  constructor
  · rintro hceil ⟨n, rfl⟩
    simp at hceil
  · intro hfraction
    rw [Int.ceil_eq_iff]
    push_cast
    refine ⟨?_, (Int.lt_floor_add_one x).le⟩
    have hne : (⌊x⌋ : ℚ) ≠ x := fun heq => hfraction ⟨⌊x⌋, heq.symm⟩
    linarith [lt_of_le_of_ne (Int.floor_le x) hne]

/-! ## To the nearest integer -/

def roundHalfEven (x : ℚ) : Int :=
  let below := ⌊x⌋
  if x - below < 1 / 2 then below
  else if 1 / 2 < x - below then below + 1
  else if below % 2 = 0 then below
  else below + 1

theorem roundHalfEven_floor_or (x : ℚ) :
    (roundHalfEven x = ⌊x⌋ ∧ x ≤ ⌊x⌋ + 1 / 2) ∨
      (roundHalfEven x = ⌊x⌋ + 1 ∧ ⌊x⌋ + 1 / 2 ≤ x) := by
  simp only [roundHalfEven]
  split
  · exact .inl ⟨rfl, by linarith⟩
  · split
    · exact .inr ⟨rfl, by linarith⟩
    · split
      · exact .inl ⟨rfl, by linarith⟩
      · exact .inr ⟨rfl, by linarith⟩

theorem roundHalfEven_near (x : ℚ) :
    x - 1 / 2 ≤ roundHalfEven x ∧ roundHalfEven x ≤ x + 1 / 2 := by
  have hfloor := Int.floor_le x
  have hceil := Int.lt_floor_add_one x
  rcases roundHalfEven_floor_or x with ⟨hround, hhalf⟩ | ⟨hround, hhalf⟩
  · rw [hround]
    constructor <;> linarith
  · rw [hround]
    push_cast
    constructor <;> linarith

theorem lt_roundHalfEven_iff (n : Int) (x : ℚ) :
    n < roundHalfEven x ↔
      (n + 1 / 2 : ℚ) < x ∨ ((n + 1 / 2 : ℚ) = x ∧ n % 2 = 1) := by
  have hfloor := Int.floor_le x
  have hceil := Int.lt_floor_add_one x
  rcases lt_trichotomy n ⌊x⌋ with hbelow | rfl | habove
  · have hbelow' : (n : ℚ) + 1 ≤ ⌊x⌋ := by exact_mod_cast hbelow
    have hround := roundHalfEven_floor_or x
    constructor
    · intro _
      left
      linarith
    · intro _
      omega
  · -- the two neighbours of `x` are `n` and `n + 1`, and its place decides
    simp only [roundHalfEven]
    rcases lt_trichotomy (x - ⌊x⌋) (1 / 2) with hlt | heq | hgt
    · rw [if_pos hlt]
      constructor
      · intro hself
        omega
      · rintro (hmiddle | ⟨hmiddle, -⟩) <;> linarith
    · rw [if_neg (by linarith), if_neg (by linarith)]
      have hmiddle : (⌊x⌋ + 1 / 2 : ℚ) = x := by linarith
      constructor
      · intro hself
        refine .inr ⟨hmiddle, ?_⟩
        split at hself <;> omega
      · rintro (hpast | ⟨-, hodd⟩)
        · linarith
        · rw [if_neg (by omega)]
          omega
    · rw [if_neg (by linarith), if_pos hgt]
      constructor
      · intro _
        left
        linarith
      · intro _
        omega
  · have habove' : (⌊x⌋ : ℚ) + 1 ≤ n := by exact_mod_cast habove
    have hround := roundHalfEven_floor_or x
    constructor
    · intro hself
      omega
    · rintro (hpast | ⟨hmiddle, -⟩) <;> linarith

theorem le_roundHalfEven {n : Int} {x : ℚ} (h : (n : ℚ) ≤ x) :
    n ≤ roundHalfEven x := by
  have hpast : ((n - 1 : Int) + 1 / 2 : ℚ) < x := by
    push_cast
    linarith
  have := (lt_roundHalfEven_iff (n - 1) x).mpr (.inl hpast)
  omega

theorem roundHalfEven_le {n : Int} {x : ℚ} (h : x ≤ n) :
    roundHalfEven x ≤ n := by
  by_contra hlt
  rcases (lt_roundHalfEven_iff n x).mp (not_le.mp hlt) with hpast | ⟨heq, -⟩ <;>
    linarith

theorem roundHalfEven_eq {n : Int} {x : ℚ} (hlow : (n - 1 / 2 : ℚ) < x)
    (hhigh : x < (n + 1 / 2 : ℚ)) : roundHalfEven x = n := by
  have hpast : ((n - 1 : Int) + 1 / 2 : ℚ) < x := by
    push_cast
    linarith
  have habove := (lt_roundHalfEven_iff (n - 1) x).mpr (.inl hpast)
  have hbelow : ¬ n < roundHalfEven x := by
    rw [lt_roundHalfEven_iff]
    rintro (hmiddle | ⟨hmiddle, -⟩) <;> linarith
  omega

@[simp] theorem roundHalfEven_intCast (n : Int) :
    roundHalfEven (n : ℚ) = n :=
  roundHalfEven_eq (by linarith) (by linarith)

theorem roundHalfEven_middle_of_even {n : Int} (heven : n % 2 = 0) :
    roundHalfEven (n + 1 / 2 : ℚ) = n := by
  have habove : n ≤ roundHalfEven (n + 1 / 2 : ℚ) :=
    le_roundHalfEven (by linarith)
  have hbelow : ¬ n < roundHalfEven (n + 1 / 2 : ℚ) := by
    rw [lt_roundHalfEven_iff]
    rintro (hmiddle | ⟨-, hodd⟩)
    · exact lt_irrefl _ hmiddle
    · omega
  omega

theorem roundHalfEven_middle_of_odd {n : Int} (hodd : n % 2 = 1) :
    roundHalfEven (n + 1 / 2 : ℚ) = n + 1 := by
  have habove : n < roundHalfEven (n + 1 / 2 : ℚ) :=
    (lt_roundHalfEven_iff n _).mpr (.inr ⟨rfl, hodd⟩)
  have hbelow : roundHalfEven (n + 1 / 2 : ℚ) ≤ n + 1 := by
    apply roundHalfEven_le
    push_cast
    linarith
  omega

theorem roundHalfEven_mono {x y : ℚ} (hxy : x ≤ y) :
    roundHalfEven x ≤ roundHalfEven y := by
  by_contra hlt
  rcases (lt_roundHalfEven_iff _ x).mp (not_le.mp hlt) with
    hmiddle | ⟨hmiddle, hodd⟩
  · have := (lt_roundHalfEven_iff (roundHalfEven y) y).mpr
      (.inl (hmiddle.trans_le hxy))
    omega
  · have := (lt_roundHalfEven_iff (roundHalfEven y) y).mpr
      ((hmiddle.le.trans hxy).lt_or_eq.imp_right fun heq => ⟨heq, hodd⟩)
    omega

/-! ## To a number of significant digits -/

/-- The unit in the last place of the numbers with leading digit `b ^ e`. -/
def unit (base precision : ℕ) (exponent : Int) : ℚ :=
  (base : ℚ) ^ (exponent - (precision - 1))

def roundSignificant (base precision : ℕ) (x : ℚ) : ℚ :=
  roundHalfEven (x / unit base precision (Int.log base |x|)) *
    unit base precision (Int.log base |x|)

/-- The doubles: `x` rounded to the nearest one, in the range of exponents. -/
def binary64 (x : ℚ) : ℚ := roundSignificant 2 53 x

section Significant

variable {base precision : ℕ} {x : ℚ} {e : Int}

theorem unit_pos (hbase : 1 < base) : 0 < unit base precision e := by
  have : (0 : ℚ) < base := by exact_mod_cast (by omega : 0 < base)
  exact zpow_pos this _

theorem zpow_eq_mul_unit (precision : ℕ) (hbase : 1 < base) {k : Int} (n : ℕ)
    (hn : (n : Int) = k - e + (precision - 1)) :
    (base : ℚ) ^ k = ((base ^ n : ℕ) : Int) * unit base precision e := by
  have hne : (base : ℚ) ≠ 0 := by exact_mod_cast (by omega : base ≠ 0)
  rw [unit]
  push_cast
  rw [← zpow_natCast, ← zpow_add₀ hne]
  congr 1
  omega

theorem zpow_log_le_roundSignificant (hbase : 1 < base)
    (hprecision : 0 < precision) (hx : 0 < x) :
    (base : ℚ) ^ Int.log base x ≤ roundSignificant base precision x := by
  have hunit : 0 < unit base precision (Int.log base x) := unit_pos hbase
  have hself := Int.zpow_log_le_self hbase hx
  have hscale := zpow_eq_mul_unit precision
    (e := Int.log base x) hbase (k := Int.log base x) (precision - 1) (by omega)
  rw [hscale, ← le_div_iff₀ hunit] at hself
  rw [roundSignificant, abs_of_pos hx, hscale]
  gcongr
  exact le_roundHalfEven hself

theorem roundSignificant_le_zpow_log (hbase : 1 < base) (hx : 0 < x) :
    roundSignificant base precision x ≤
      (base : ℚ) ^ (Int.log base x + 1) := by
  have hunit : 0 < unit base precision (Int.log base x) := unit_pos hbase
  have hself := (Int.lt_zpow_succ_log_self hbase x).le
  have hscale := zpow_eq_mul_unit precision
    (e := Int.log base x) hbase (k := Int.log base x + 1) precision (by omega)
  rw [hscale, ← div_le_iff₀ hunit] at hself
  rw [roundSignificant, abs_of_pos hx, hscale]
  gcongr
  exact roundHalfEven_le hself

theorem roundSignificant_eq (hbase : 1 < base) {k : Int}
    (hlow : (base : ℚ) ^ k ≤ x) (hhigh : x < (base : ℚ) ^ (k + 1)) :
    roundSignificant base precision x =
      roundHalfEven (x / unit base precision k) * unit base precision k := by
  have hpos : 0 < x := (zpow_pos (by
    exact_mod_cast (by omega : 0 < base)) k).trans_le hlow
  have hlog : Int.log base x = k := by
    have := (Int.zpow_le_iff_le_log hbase hpos).mp hlow
    have := (Int.lt_zpow_iff_log_lt hbase hpos).mp hhigh
    omega
  rw [roundSignificant, abs_of_pos hpos, hlog]

theorem le_roundSignificant (hbase : 1 < base) (hprecision : 0 < precision)
    {k : Int} (hx : (base : ℚ) ^ k ≤ x) :
    (base : ℚ) ^ k ≤ roundSignificant base precision x := by
  have hbase' : (1 : ℚ) ≤ base := by exact_mod_cast hbase.le
  have hpos : 0 < x := (zpow_pos (by linarith) k).trans_le hx
  have hlog : k ≤ Int.log base x := (Int.zpow_le_iff_le_log hbase hpos).mp hx
  calc
    (base : ℚ) ^ k ≤ (base : ℚ) ^ Int.log base x :=
      zpow_le_zpow_right₀ hbase' hlog
    _ ≤ _ := zpow_log_le_roundSignificant hbase hprecision hpos

theorem roundSignificant_le (hbase : 1 < base) {k : Int} (hnonneg : 0 ≤ x)
    (hx : x < (base : ℚ) ^ k) :
    roundSignificant base precision x ≤ (base : ℚ) ^ k := by
  have hbase' : (1 : ℚ) ≤ base := by exact_mod_cast hbase.le
  rcases hnonneg.eq_or_lt with rfl | hpos
  · have hzero : roundSignificant base precision 0 = 0 := by
      simp [roundSignificant, roundHalfEven]
    rw [hzero]
    exact hx.le
  · have hlog : Int.log base x < k := (Int.lt_zpow_iff_log_lt hbase hpos).mp hx
    calc
      roundSignificant base precision x ≤ (base : ℚ) ^ (Int.log base x + 1) :=
        roundSignificant_le_zpow_log hbase hpos
      _ ≤ (base : ℚ) ^ k := zpow_le_zpow_right₀ hbase' hlog

theorem roundSignificant_nonneg (hbase : 1 < base) (hx : 0 ≤ x) :
    0 ≤ roundSignificant base precision x := by
  have hunit : 0 < unit base precision (Int.log base |x|) := unit_pos hbase
  have hround : (0 : Int) ≤
      roundHalfEven (x / unit base precision (Int.log base |x|)) := by
    apply le_roundHalfEven
    exact_mod_cast div_nonneg hx hunit.le
  exact mul_nonneg (by exact_mod_cast hround) hunit.le

theorem binary64_nonneg {x : ℚ} (hx : 0 ≤ x) : 0 ≤ binary64 x :=
  roundSignificant_nonneg (by decide) hx

theorem roundSignificant_mono (hbase : 1 < base) (hprecision : 0 < precision)
    {y : ℚ} (hx : 0 ≤ x) (hxy : x ≤ y) :
    roundSignificant base precision x ≤ roundSignificant base precision y := by
  rcases hx.eq_or_lt with rfl | hpos
  · have hzero : roundSignificant base precision 0 = 0 := by
      simp [roundSignificant, roundHalfEven]
    rw [hzero]
    exact roundSignificant_nonneg hbase hxy
  · have hbase' : (1 : ℚ) ≤ base := by exact_mod_cast hbase.le
    have hlog : Int.log base x ≤ Int.log base y := Int.log_mono_right hpos hxy
    rcases hlog.lt_or_eq with hlt | heq
    · calc
        roundSignificant base precision x ≤ (base : ℚ) ^ (Int.log base x + 1) :=
          roundSignificant_le_zpow_log hbase hpos
        _ ≤ (base : ℚ) ^ Int.log base y := zpow_le_zpow_right₀ hbase' hlt
        _ ≤ _ := zpow_log_le_roundSignificant hbase hprecision
          (hpos.trans_le hxy)
    · have hunit : 0 < unit base precision (Int.log base y) := unit_pos hbase
      rw [roundSignificant, roundSignificant, abs_of_pos hpos,
        abs_of_pos (hpos.trans_le hxy), heq]
      gcongr
      exact roundHalfEven_mono (div_le_div_of_nonneg_right hxy hunit.le)

theorem roundSignificant_eq_div (hbase : 1 < base) {digits : ℕ}
    (hlow : (base : ℚ) ^ (precision - 1 : Int) ≤ x * base ^ digits)
    (hhigh : x * base ^ digits < (base : ℚ) ^ precision) :
    roundSignificant base precision x =
      roundHalfEven (x * base ^ digits) / base ^ digits := by
  have hpos : (0 : ℚ) < base := by exact_mod_cast (by omega : 0 < base)
  have hscale : (0 : ℚ) < (base : ℚ) ^ digits := by positivity
  have hunit : unit base precision (precision - 1 - digits) =
      ((base : ℚ) ^ digits)⁻¹ := by
    rw [unit, ← zpow_natCast, ← zpow_neg]
    congr 1
    omega
  rw [roundSignificant_eq hbase (k := precision - 1 - digits), hunit,
    div_inv_eq_mul, ← div_eq_mul_inv]
  · rw [zpow_sub₀ hpos.ne', zpow_natCast, div_le_iff₀ hscale]
    exact hlow
  · have hexponent : (precision - 1 - digits + 1 : Int) =
        (precision : Int) - (digits : Int) := by
      omega
    rw [hexponent, zpow_sub₀ hpos.ne', zpow_natCast, zpow_natCast,
      lt_div_iff₀ hscale]
    exact hhigh

theorem roundSignificant_eq_self (hbase : 1 < base) {n : Int}
    (hn : x = n * unit base precision (Int.log base |x|)) :
    roundSignificant base precision x = x := by
  have hunit : 0 < unit base precision (Int.log base |x|) := unit_pos hbase
  have hscaled : x / unit base precision (Int.log base |x|) = n := by
    rw [div_eq_iff hunit.ne']
    exact hn
  rw [roundSignificant, hscaled, roundHalfEven_intCast, ← hn]

theorem roundSignificant_of_significand (hbase : 1 < base)
    (hprecision : 0 < precision) {m : ℕ} (hm : m ≤ base ^ precision)
    (k : Int) :
    roundSignificant base precision (m * (base : ℚ) ^ k) =
      m * (base : ℚ) ^ k := by
  rcases Nat.eq_zero_or_pos m with rfl | hpos
  · simp [roundSignificant, roundHalfEven]
  have hbase' : (0 : ℚ) < base := by exact_mod_cast (by omega : 0 < base)
  have hm' : (m : ℚ) ≤ (base : ℚ) ^ (precision : Int) := by
    exact_mod_cast hm
  have hx : 0 < m * (base : ℚ) ^ k :=
    mul_pos (by exact_mod_cast hpos) (zpow_pos hbase' k)
  generalize hlog : Int.log base (m * (base : ℚ) ^ k) = e
  have hself := Int.zpow_log_le_self hbase hx
  have hle : m * (base : ℚ) ^ k ≤ (base : ℚ) ^ ((precision : Int) + k) := by
    rw [zpow_add₀ hbase'.ne']
    exact mul_le_mul_of_nonneg_right hm' (zpow_pos hbase' k).le
  rw [hlog] at hself
  have he : e ≤ precision + k :=
    (zpow_le_zpow_iff_right₀ (by exact_mod_cast hbase)).mp (hself.trans hle)
  -- the last digit has its place, or the number is a power of the base
  rcases he.lt_or_eq with hlt | heq
  · have hshift : (0 : Int) ≤ precision - 1 - e + k := by omega
    apply roundSignificant_eq_self hbase
      (n := m * base ^ (precision - 1 - e + k).toNat)
    rw [abs_of_pos hx, hlog, unit]
    push_cast
    rw [← zpow_natCast (base : ℚ) (Int.toNat _), Int.toNat_of_nonneg hshift,
      mul_assoc, ← zpow_add₀ hbase'.ne']
    congr 2
    ring
  · subst heq
    have hpower := le_antisymm hle hself
    apply roundSignificant_eq_self hbase (n := base ^ (precision - 1))
    rw [abs_of_pos hx, hlog]
    exact hpower.trans (zpow_eq_mul_unit precision hbase (precision - 1)
      (by omega))

theorem roundSignificant_of_digits (hbase : 1 < base)
    (hprecision : 0 < precision) {m digits : ℕ} (hm : m ≤ base ^ precision) :
    roundSignificant base precision (m / base ^ digits) =
      m / base ^ digits := by
  have hkept := roundSignificant_of_significand hbase hprecision hm (-digits)
  rwa [zpow_neg, zpow_natCast, ← div_eq_mul_inv] at hkept

theorem exists_significand (hbase : 1 < base) (hx : 0 < x) :
    ∃ m : ℕ, m ≤ base ^ precision ∧ roundSignificant base precision x =
      m * unit base precision (Int.log base x) := by
  have hunit : 0 < unit base precision (Int.log base x) := unit_pos hbase
  have hnonneg : 0 ≤ roundHalfEven (x / unit base precision (Int.log base x)) :=
    by
    apply le_roundHalfEven
    exact_mod_cast div_nonneg hx.le hunit.le
  obtain ⟨m, hm⟩ := Int.eq_ofNat_of_zero_le hnonneg
  have hround : roundSignificant base precision x =
      m * unit base precision (Int.log base x) := by
    rw [roundSignificant, abs_of_pos hx, hm, Int.cast_natCast]
  refine ⟨m, ?_, hround⟩
  have hmost : roundSignificant base precision x ≤
      (base : ℚ) ^ (Int.log base x + 1) :=
    roundSignificant_le_zpow_log hbase hx
  rw [hround, zpow_eq_mul_unit precision (e := Int.log base x) hbase
    (k := Int.log base x + 1) precision (by omega),
    mul_le_mul_iff_left₀ hunit] at hmost
  exact_mod_cast hmost

/--
A comparison with a threshold, after rounding, is a comparison of whole numbers
of the unit at the threshold.
-/
theorem lt_roundSignificant_iff (hbase : 1 < base) (hprecision : 0 < precision)
    {threshold : ℚ} {k : Int} (hlow : (base : ℚ) ^ k ≤ threshold)
    (hhigh : threshold < (base : ℚ) ^ (k + 1)) (hnonneg : 0 ≤ x) :
    threshold < roundSignificant base precision x ↔
      ⌊threshold / unit base precision k⌋ <
        roundHalfEven (x / unit base precision k) := by
  have hunit : 0 < unit base precision k := unit_pos hbase
  have hleast := zpow_eq_mul_unit precision (e := k) hbase
    (k := k) (precision - 1) (by omega)
  have hmost := zpow_eq_mul_unit precision (e := k) hbase
    (k := k + 1) precision (by omega)
  rcases lt_or_ge x ((base : ℚ) ^ k) with hsmall | hx
  · -- both sides fail: a smaller number is not rounded past the power
    have hround : roundSignificant base precision x ≤ (base : ℚ) ^ k :=
      roundSignificant_le hbase hnonneg hsmall
    have hscaled : x / unit base precision k ≤ ((base ^ (precision - 1) : ℕ) :
        Int) := by
      rw [div_le_iff₀ hunit, ← hleast]
      exact hsmall.le
    have hfloor : ((base ^ (precision - 1) : ℕ) : Int) ≤
        ⌊threshold / unit base precision k⌋ := by
      rw [Int.le_floor, le_div_iff₀ hunit, ← hleast]
      exact hlow
    have := roundHalfEven_le hscaled
    constructor
    · intro hpast
      linarith
    · intro hpast
      omega
  rcases le_or_gt ((base : ℚ) ^ (k + 1)) x with hlarge | hx'
  · have hround := le_roundSignificant hbase hprecision hlarge
    have hscaled : (((base ^ precision : ℕ) : Int) : ℚ) ≤
        x / unit base precision k := by
      rw [le_div_iff₀ hunit, ← hmost]
      exact hlarge
    have hfloor : ⌊threshold / unit base precision k⌋ <
        ((base ^ precision : ℕ) : Int) := by
      rw [Int.floor_lt, div_lt_iff₀ hunit, ← hmost]
      exact hhigh
    have := le_roundHalfEven hscaled
    constructor
    · intro _
      omega
    · intro _
      linarith
  · rw [roundSignificant_eq hbase hx hx', Int.floor_lt, div_lt_iff₀ hunit]

end Significant

/-! ## Doubles beside whole numbers -/

def halfSpacing (x : ℚ) : ℚ := unit 2 53 (Int.log 2 |x|) / 2

def Overshoots (x : ℚ) : Prop :=
  if 0 ≤ x then ⌊x⌋ + 1 - halfSpacing x ≤ x else ⌊x⌋ + halfSpacing x < x

section Doubles

variable {x : ℚ}

theorem log_abs_lt {k : ℕ} (hk : 0 < k) (hx : |x| < 2 ^ k) :
    Int.log 2 |x| < k := by
  rcases (abs_nonneg x).eq_or_lt with hzero | hpos
  · rw [← hzero, Int.log_zero_right]
    exact_mod_cast hk
  · have hlt : |x| < ((2 : ℕ) : ℚ) ^ (k : Int) := by exact_mod_cast hx
    exact (Int.lt_zpow_iff_log_lt (by decide) hpos).mp hlt

theorem exists_units (hx : |x| < 2 ^ 52) :
    ∃ n : Int, 0 < n ∧ unit 2 53 (Int.log 2 |x|) = 1 / (2 * n : Int) := by
  have hlog : Int.log 2 |x| < 52 := log_abs_lt (by decide) hx
  have hscale : ((2 : ℕ) : ℚ) ^ (0 : Int) =
      ((2 ^ (52 - Int.log 2 |x|).toNat : ℕ) : Int) *
        unit 2 53 (Int.log 2 |x|) :=
    zpow_eq_mul_unit 53 (by decide) _ (by omega)
  have hunit : 0 < unit 2 53 (Int.log 2 |x|) := unit_pos (by decide)
  refine ⟨2 ^ (51 - Int.log 2 |x|).toNat, by positivity, ?_⟩
  have hsucc : (52 - Int.log 2 |x|).toNat = (51 - Int.log 2 |x|).toNat + 1 := by
    omega
  rw [hsucc, pow_succ'] at hscale
  rw [eq_div_iff (by positivity), mul_comm]
  push_cast at hscale ⊢
  linarith

theorem binary64_eq_div {n : Int}
    (hunit : unit 2 53 (Int.log 2 |x|) = 1 / (2 * n : Int)) :
    binary64 x = roundHalfEven (x * (2 * n : Int)) / (2 * n : Int) := by
  rw [binary64, roundSignificant, hunit, div_div_eq_mul_div, div_one,
    mul_one_div]

theorem halfSpacing_pos (x : ℚ) : 0 < halfSpacing x :=
  half_pos (unit_pos (by decide))

theorem halfSpacing_lt_one (hx : |x| < 2 ^ 52) : halfSpacing x < 1 := by
  obtain ⟨n, hn, hunit⟩ := exists_units hx
  have hn' : (1 : ℚ) ≤ n := by exact_mod_cast hn
  rw [halfSpacing, hunit, div_lt_iff₀ (by norm_num), div_lt_iff₀]
  · push_cast
    linarith
  · push_cast
    linarith

theorem intCast_lt_binary64_iff (hx : |x| < 2 ^ 52) (m : Int) :
    (m : ℚ) < binary64 x ↔ m + halfSpacing x < x := by
  obtain ⟨n, hn, hunit⟩ := exists_units hx
  have hpos : (0 : ℚ) < (2 * n : Int) := by
    exact_mod_cast (by omega : 0 < 2 * n)
  have hscaled : (m : ℚ) < binary64 x ↔
      m * (2 * n) < roundHalfEven (x * (2 * n : Int)) := by
    rw [binary64_eq_div hunit, lt_div_iff₀ hpos]
    exact_mod_cast Iff.rfl
  have heven : ¬ (m * (2 * n)) % 2 = 1 := by
    rw [mul_left_comm]
    omega
  rw [hscaled, lt_roundHalfEven_iff, halfSpacing, hunit]
  simp only [heven, and_false, or_false]
  push_cast at hpos ⊢
  have hmiddle : (m + 1 / (2 * n) / 2 : ℚ) < x ↔
      (m + 1 / (2 * n) / 2) * (2 * n) < x * (2 * n) :=
    (mul_lt_mul_iff_left₀ hpos).symm
  rw [hmiddle]
  field_simp

theorem intCast_le_binary64_iff (hx : |x| < 2 ^ 52) (m : Int) :
    (m : ℚ) ≤ binary64 x ↔ m - halfSpacing x ≤ x := by
  obtain ⟨n, hn, hunit⟩ := exists_units hx
  have hpos : (0 : ℚ) < (2 * n : Int) := by
    exact_mod_cast (by omega : 0 < 2 * n)
  have hscaled : (m : ℚ) ≤ binary64 x ↔
      m * (2 * n) - 1 < roundHalfEven (x * (2 * n : Int)) := by
    rw [binary64_eq_div hunit, le_div_iff₀ hpos, Int.sub_one_lt_iff]
    exact_mod_cast Iff.rfl
  have hodd : (m * (2 * n) - 1) % 2 = 1 := by
    rw [mul_left_comm]
    omega
  rw [hscaled, lt_roundHalfEven_iff, halfSpacing, hunit]
  simp only [hodd, and_true, ← le_iff_lt_or_eq]
  push_cast at hpos ⊢
  have hmiddle : (m - 1 / (2 * n) / 2 : ℚ) ≤ x ↔
      (m - 1 / (2 * n) / 2) * (2 * n) ≤ x * (2 * n) :=
    (mul_le_mul_iff_left₀ hpos).symm
  rw [hmiddle]
  field_simp
  ring_nf

theorem truncate_binary64 (hx : |x| < 2 ^ 52) :
    (truncate (binary64 x) = ⌊x⌋ ∧ ¬ Overshoots x) ∨
      (truncate (binary64 x) = ⌊x⌋ + 1 ∧ Overshoots x) := by
  have hfloor := Int.floor_le x
  have hceil := Int.lt_floor_add_one x
  have hpos := halfSpacing_pos x
  have hone := halfSpacing_lt_one hx
  have hlow : (⌊x⌋ : ℚ) ≤ binary64 x := by
    rw [intCast_le_binary64_iff hx]
    linarith
  rcases le_or_gt 0 x with hnonneg | hneg
  · have hhigh : binary64 x < (⌊x⌋ + 2 : Int) := by
      rw [← not_le, intCast_le_binary64_iff hx]
      push_cast
      linarith
    have hnext := intCast_le_binary64_iff hx (⌊x⌋ + 1)
    rw [truncate_of_nonneg (binary64_nonneg hnonneg), Overshoots,
      if_pos hnonneg]
    push_cast at hhigh hnext
    rw [← hnext]
    by_cases hreaches : (⌊x⌋ + 1 : ℚ) ≤ binary64 x
    · refine .inr ⟨?_, hreaches⟩
      rw [Int.floor_eq_iff]
      push_cast
      exact ⟨hreaches, by linarith⟩
    · refine .inl ⟨?_, hreaches⟩
      rw [Int.floor_eq_iff]
      exact ⟨hlow, not_le.mp hreaches⟩
  · have hnonpos : binary64 x ≤ 0 := by
      have hzero := intCast_lt_binary64_iff hx 0
      rw [Int.cast_zero] at hzero
      rw [← not_lt, hzero]
      linarith
    have hhigh : binary64 x ≤ (⌊x⌋ + 1 : Int) := by
      rw [← not_lt, intCast_lt_binary64_iff hx]
      push_cast
      linarith
    rw [truncate_of_nonpos hnonpos, Overshoots, if_neg (not_le.mpr hneg),
      ← intCast_lt_binary64_iff hx]
    by_cases hpasses : (⌊x⌋ : ℚ) < binary64 x
    · refine .inr ⟨?_, hpasses⟩
      rw [Int.ceil_eq_iff]
      push_cast at hhigh ⊢
      exact ⟨by linarith, hhigh⟩
    · refine .inl ⟨?_, hpasses⟩
      rw [Int.ceil_eq_iff]
      exact ⟨by linarith, not_lt.mp hpasses⟩

end Doubles

/-! ## Numbers that doubles keep -/

section Exact

variable {x : ℚ}

theorem binary64_of_digits {m digits : ℕ} (hm : m ≤ 2 ^ 53) :
    binary64 (m / 2 ^ digits) = m / 2 ^ digits :=
  roundSignificant_of_digits (by decide) (by decide) hm

theorem binary64_mono {y : ℚ} (hx : 0 ≤ x) (hxy : x ≤ y) :
    binary64 x ≤ binary64 y :=
  roundSignificant_mono (by decide) (by decide) hx hxy

theorem binary64_intCast {n : Int} (hpos : 0 ≤ n) (hn : n ≤ 2 ^ 53) :
    binary64 n = n := by
  obtain ⟨m, rfl⟩ := Int.eq_ofNat_of_zero_le hpos
  have hkept : binary64 (m / 2 ^ 0) = m / 2 ^ 0 :=
    binary64_of_digits (by omega)
  simpa using hkept

theorem binary64_near (hx : 0 < x) :
    x - x / 2 ^ 53 ≤ binary64 x ∧ binary64 x ≤ x + x / 2 ^ 53 := by
  have hunit : 0 < unit 2 53 (Int.log 2 x) := unit_pos (by decide)
  have hscale := zpow_eq_mul_unit 53 (e := Int.log 2 x)
    (by decide : 1 < 2) (k := Int.log 2 x) 52 (by omega)
  have hself := Int.zpow_log_le_self (by decide : 1 < 2) hx
  rw [hscale] at hself
  push_cast at hself
  have hquotient : x / unit 2 53 (Int.log 2 x) * unit 2 53 (Int.log 2 x) = x :=
    div_mul_cancel₀ x hunit.ne'
  obtain ⟨hlow, hhigh⟩ := roundHalfEven_near (x / unit 2 53 (Int.log 2 x))
  have hlow' := mul_le_mul_of_nonneg_right hlow hunit.le
  have hhigh' := mul_le_mul_of_nonneg_right hhigh hunit.le
  rw [sub_mul, hquotient] at hlow'
  rw [add_mul, hquotient] at hhigh'
  rw [binary64, roundSignificant, abs_of_pos hx]
  constructor <;> linarith

theorem binary64_mul_zpow (hx : 0 < x) (k : Int) :
    binary64 (binary64 x * 2 ^ k) = binary64 x * 2 ^ k := by
  obtain ⟨m, hm, hround⟩ : ∃ m : ℕ, m ≤ 2 ^ 53 ∧
      roundSignificant 2 53 x = m * unit 2 53 (Int.log 2 x) :=
    exists_significand (by decide) hx
  have hscaled : binary64 x * 2 ^ k =
      m * ((2 : ℕ) : ℚ) ^ (Int.log 2 x - 52 + k) := by
    rw [binary64, hround, unit, mul_assoc, Nat.cast_ofNat,
      zpow_add₀ (by norm_num : (2 : ℚ) ≠ 0)]
    norm_num
  rw [hscaled]
  exact roundSignificant_of_significand (by decide) (by decide) hm _

theorem binary64_even {n : Int} (hn : 2 ^ 53 < n) :
    ∃ c : Int, 0 < c ∧ binary64 n = (2 * c : Int) := by
  have hlarge : ((2 : ℕ) : ℚ) ^ (53 : Int) ≤ n := by exact_mod_cast hn.le
  have hpos : (0 : ℚ) < n := lt_of_lt_of_le (by norm_num) hlarge
  have hlog := (Int.zpow_le_iff_le_log (by decide) hpos).mp hlarge
  obtain ⟨m, -, hround⟩ : ∃ m : ℕ, m ≤ 2 ^ 53 ∧
      roundSignificant 2 53 (n : ℚ) = m * unit 2 53 (Int.log 2 (n : ℚ)) :=
    exists_significand (by decide) hpos
  obtain ⟨e, he⟩ := Int.eq_ofNat_of_zero_le (sub_nonneg.mpr hlog)
  have heven : binary64 n = (2 * (m * 2 ^ e) : Int) := by
    have hexponent : Int.log 2 (n : ℚ) - ((53 : ℕ) - 1 : Int) =
        1 + (e : Int) := by
      omega
    rw [binary64, hround, unit, hexponent, zpow_add₀ (by norm_num)]
    push_cast
    rw [zpow_natCast]
    ring
  refine ⟨m * 2 ^ e, ?_, heven⟩
  have hleast : (2 : ℚ) ^ (53 : Int) ≤ binary64 n :=
    le_roundSignificant (by decide) (by decide) hlarge
  rw [heven] at hleast
  have hleast' : (2 : Int) ^ 53 ≤ 2 * (m * 2 ^ e) := by exact_mod_cast hleast
  omega

theorem binary64_nonpos (hx : x ≤ 0) : binary64 x ≤ 0 := by
  have hunit : 0 < unit 2 53 (Int.log 2 |x|) := unit_pos (by decide)
  have hround : roundHalfEven (x / unit 2 53 (Int.log 2 |x|)) ≤ 0 := by
    apply roundHalfEven_le
    exact_mod_cast div_nonpos_of_nonpos_of_nonneg hx hunit.le
  exact mul_nonpos_of_nonpos_of_nonneg (by exact_mod_cast hround) hunit.le

theorem le_binary64 {k : Int} (hx : (2 : ℚ) ^ k ≤ x) : 2 ^ k ≤ binary64 x :=
  le_roundSignificant (by decide) (by decide) (by exact_mod_cast hx)

theorem halfSpacing_le {k : ℕ} (hk : 0 < k) (hx : |x| < 2 ^ k) :
    halfSpacing x ≤ 2 ^ k / 2 ^ 54 := by
  have hlog := log_abs_lt hk hx
  have hunit : unit 2 53 (Int.log 2 |x|) ≤ unit 2 53 (k - 1) := by
    unfold unit
    gcongr
    · norm_num
    · omega
  have hscale : unit 2 53 (k - 1) = 2 ^ k / 2 ^ 53 := by
    have hexponent :
        ((k : Int) - 1 - ((53 : ℕ) - 1)) = (k : Int) - (53 : ℕ) := by omega
    rw [unit, hexponent, zpow_sub₀ (by norm_num), zpow_natCast, zpow_natCast]
    norm_num
  rw [hscale] at hunit
  rw [halfSpacing, pow_succ (2 : ℚ) 53, ← div_div]
  linarith

/-- Rounded up, a number keeps to its whole numbers if it is clear of them. -/
theorem ceil_binary64 (hx : |x| < 2 ^ 52)
    (hclear : (⌈x⌉ - 1 : ℚ) + halfSpacing x < x) : ⌈binary64 x⌉ = ⌈x⌉ := by
  rw [Int.ceil_eq_iff]
  constructor
  · have hbelow := (intCast_lt_binary64_iff hx (⌈x⌉ - 1)).mpr (by
      push_cast
      exact hclear)
    exact_mod_cast hbelow
  · rw [← not_lt, intCast_lt_binary64_iff hx]
    have hceil := Int.le_ceil x
    have hpos := halfSpacing_pos x
    linarith

end Exact

end RateLimitedGateway.Foundation
