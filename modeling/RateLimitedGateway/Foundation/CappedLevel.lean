import Mathlib.Algebra.BigOperators.Intervals
import Mathlib.Algebra.Order.BigOperators.Group.Finset
import Mathlib.Tactic.Abel

/-!
# Levels under a changing cap

A level gains, is cut to the cap of the moment, and is then spent from.  Seen
from the start, such a level is the least of many balances, one for each moment
at which it may last have been full.  This is the min-plus form of the
recursion, and everything a capped counter promises can be read off it.
-/

namespace RateLimitedGateway.Foundation

open Finset

variable {α : Type*} [AddCommGroup α] [LinearOrder α]

def level (start : α) (cap gain spent : ℕ → α) : ℕ → α
  | 0 => start
  | n + 1 => min (level start cap gain spent n - spent n + gain (n + 1))
      (cap (n + 1))

variable {start : α} {cap gain spent : ℕ → α}

@[simp] theorem level_zero : level start cap gain spent 0 = start := rfl

theorem level_succ (n : ℕ) :
    level start cap gain spent (n + 1) =
      min (level start cap gain spent n - spent n + gain (n + 1))
        (cap (n + 1)) := rfl

variable [IsOrderedAddMonoid α]

/--
The min-plus form: the level covers `x` exactly when every window that starts
with a full level leaves `x` after what was spent in it.
-/
theorem le_level_iff (hstart : start = cap 0) (n : ℕ) (x : α) :
    x ≤ level start cap gain spent n ↔
      ∀ m ≤ n, x + ∑ k ∈ Ico m n, spent k ≤ cap m + ∑ k ∈ Ioc m n, gain k := by
  induction n generalizing x with
  | zero => simp [hstart]
  | succ n ih =>
      -- a window that ends at `n + 1` is one that ends at `n`, or is empty
      have hwindow : ∀ m ≤ n,
          (x + ∑ k ∈ Ico m (n + 1), spent k ≤
              cap m + ∑ k ∈ Ioc m (n + 1), gain k ↔
            x - gain (n + 1) + spent n + ∑ k ∈ Ico m n, spent k ≤
              cap m + ∑ k ∈ Ioc m n, gain k) := by
        intro m hm
        rw [sum_Ico_succ_top hm, sum_Ioc_succ_top hm, ← add_assoc (cap m),
          ← sub_le_iff_le_add]
        have hrearrange : x + (∑ k ∈ Ico m n, spent k + spent n) -
            gain (n + 1) =
              x - gain (n + 1) + spent n + ∑ k ∈ Ico m n, spent k := by
          abel
        rw [hrearrange]
      have hlevel : x ≤ level start cap gain spent n - spent n + gain (n + 1) ↔
          x - gain (n + 1) + spent n ≤ level start cap gain spent n := by
        rw [← sub_le_iff_le_add, ← le_sub_iff_add_le]
      rw [level_succ, le_min_iff, hlevel, ih]
      constructor
      · rintro ⟨hpast, hcap⟩ m hm
        rcases Nat.le_succ_iff.mp hm with hm | rfl
        · exact (hwindow m hm).mpr (hpast m hm)
        · simpa using hcap
      · intro h
        refine ⟨fun m hm => (hwindow m hm).mp (h m (Nat.le_succ_of_le hm)), ?_⟩
        simpa using h (n + 1) le_rfl

theorem sum_spent_add_level_le {n : ℕ} (hcap : ∀ k, 0 ≤ cap k)
    (hgain : ∀ k, 0 ≤ gain k)
    (hspent : ∀ k < n, spent k ≤ max 0 (level start cap gain spent k)) :
    ∑ k ∈ range n, spent k + max 0 (level start cap gain spent n) ≤
      max 0 start + ∑ k ∈ range n, min (cap (k + 1)) (gain (k + 1)) := by
  induction n with
  | zero => simp
  | succ n ih =>
      have hpast := ih fun k hk => hspent k (Nat.lt_succ_of_lt hk)
      have hleft : 0 ≤ max 0 (level start cap gain spent n) - spent n :=
        sub_nonneg.mpr (hspent n (Nat.lt_succ_self n))
      have hstep : max 0 (level start cap gain spent (n + 1)) ≤
          max 0 (level start cap gain spent n) - spent n +
            min (cap (n + 1)) (gain (n + 1)) := by
        rw [level_succ, add_min, min_comm (_ + cap (n + 1))]
        apply max_le
        · exact le_min (add_nonneg hleft (hgain (n + 1)))
            (add_nonneg hleft (hcap (n + 1)))
        · apply min_le_min
          · gcongr
            exact le_max_right _ _
          · exact le_add_of_nonneg_left hleft
      rw [sum_range_succ, sum_range_succ]
      calc
        ∑ k ∈ range n, spent k + spent n +
              max 0 (level start cap gain spent (n + 1))
            ≤ ∑ k ∈ range n, spent k + spent n +
              (max 0 (level start cap gain spent n) - spent n +
                min (cap (n + 1)) (gain (n + 1))) := by gcongr
        _ = ∑ k ∈ range n, spent k + max 0 (level start cap gain spent n) +
              min (cap (n + 1)) (gain (n + 1)) := by abel
        _ ≤ max 0 start + ∑ k ∈ range n, min (cap (k + 1)) (gain (k + 1)) +
              min (cap (n + 1)) (gain (n + 1)) := by gcongr
        _ = _ := add_assoc _ _ _

theorem level_succ_add_sum_spent (n : ℕ) :
    level start cap gain spent (n + 1) + ∑ k ∈ range (n + 1), spent k =
      min (level start cap gain spent n + ∑ k ∈ range n, spent k +
          gain (n + 1))
        (cap (n + 1) + ∑ k ∈ range (n + 1), spent k) := by
  rw [level_succ, min_add, sum_range_succ]
  congr 1
  abel

/--
Two levels, the second with the greater start, caps and gains.  It may spend at
another time than the first one, but it never has spent less: while it leads it
can afford to fall back, and when it does not lead its level is the higher one.
-/
theorem sum_spent_le_sum_spent {start' : α} {cap' gain' spent' : ℕ → α}
    (hstart : start ≤ start') (hcap : ∀ k, cap k ≤ cap' k)
    (hgain : ∀ k, gain k ≤ gain' k)
    (hspent : ∀ k, level start cap gain spent k ≤
      level start' cap' gain' spent' k → spent k ≤ spent' k)
    (hlead : ∀ k, ∑ j ∈ range k, spent j < ∑ j ∈ range k, spent' j →
      ∑ j ∈ range (k + 1), spent j ≤ ∑ j ∈ range (k + 1), spent' j) (n : ℕ) :
    ∑ k ∈ range n, spent k ≤ ∑ k ∈ range n, spent' k ∧
      level start cap gain spent n + ∑ k ∈ range n, spent k ≤
        level start' cap' gain' spent' n + ∑ k ∈ range n, spent' k := by
  induction n with
  | zero => simpa using hstart
  | succ n ih =>
      obtain ⟨hsum, htotal⟩ := ih
      have hnext : ∑ k ∈ range (n + 1), spent k ≤
          ∑ k ∈ range (n + 1), spent' k := by
        rcases hsum.lt_or_eq with hahead | heven
        · exact hlead n hahead
        · rw [heven, add_le_add_iff_right] at htotal
          rw [sum_range_succ, sum_range_succ, heven]
          gcongr
          exact hspent n htotal
      refine ⟨hnext, ?_⟩
      rw [level_succ_add_sum_spent, level_succ_add_sum_spent]
      apply min_le_min
      · gcongr
        exact hgain (n + 1)
      · gcongr
        exact hcap (n + 1)

end RateLimitedGateway.Foundation
