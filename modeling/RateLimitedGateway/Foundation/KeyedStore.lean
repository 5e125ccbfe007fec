import Mathlib.Logic.Function.Basic

/-!
# Operations on a store, each on one key

An operation answers and leaves a store.  If every operation of a run reads and
writes a single key, then what happens at some keys does not depend on the
operations on the other ones, which may as well be left out.
-/

namespace RateLimitedGateway.Foundation

variable {κ ν ι ω : Type*}

abbrev Operation (κ ν ω : Type*) := (κ → ν) → ω × (κ → ν)

structure Operation.ActsOn (operation : Operation κ ν ω) (key : κ) : Prop where
  answer : ∀ {store other : κ → ν}, store key = other key →
    (operation store).1 = (operation other).1
  value : ∀ {store other : κ → ν}, store key = other key →
    (operation store).2 key = (operation other).2 key
  frame : ∀ (store : κ → ν) {elsewhere : κ}, elsewhere ≠ key →
    (operation store).2 elsewhere = store elsewhere

def runAll (operation : ι → Operation κ ν ω) :
    List ι → (κ → ν) → List (ι × ω) × (κ → ν)
  | [], store => ([], store)
  | input :: inputs, store =>
      let (answer, after) := operation input store
      let (answers, last) := runAll operation inputs after
      ((input, answer) :: answers, last)

section Isolation

variable {operation : ι → Operation κ ν ω} {keyOf : ι → κ}

theorem runAll_append (earlier later : List ι) (store : κ → ν) :
    (runAll operation (earlier ++ later) store).2 =
      (runAll operation later (runAll operation earlier store).2).2 := by
  induction earlier generalizing store with
  | nil => rfl
  | cons input earlier ih => exact ih (operation input store).2

theorem Operation.ActsOn.agree {op : Operation κ ν ω} {key : κ}
    (hacts : op.ActsOn key) {store other : κ → ν} {watched : κ → Bool}
    (hagree : ∀ k, watched k = true → store k = other k)
    (hkey : watched key = true) :
    (op store).1 = (op other).1 ∧
      ∀ k, watched k = true → (op store).2 k = (op other).2 k := by
  have hvalue := hagree key hkey
  refine ⟨hacts.answer hvalue, ?_⟩
  intro k hk
  by_cases hsame : k = key
  · subst hsame
    exact hacts.value hvalue
  · rw [hacts.frame store hsame, hacts.frame other hsame]
    exact hagree k hk

/--
Isolation: from stores that agree on the watched keys, the watched part of a
run is the run of the operations on watched keys.
-/
theorem runAll_filter (hacts : ∀ input, (operation input).ActsOn (keyOf input))
    (watched : κ → Bool) (inputs : List ι) {store other : κ → ν}
    (hagree : ∀ key, watched key = true → store key = other key) :
    (runAll operation inputs store).1.filter
          (fun answered => watched (keyOf answered.1)) =
        (runAll operation
          (inputs.filter fun input => watched (keyOf input)) other).1 ∧
      ∀ key, watched key = true →
        (runAll operation inputs store).2 key =
          (runAll operation
            (inputs.filter fun input => watched (keyOf input)) other).2
            key := by
  induction inputs generalizing store other with
  | nil => exact ⟨rfl, hagree⟩
  | cons input inputs ih =>
      cases hkey : watched (keyOf input) with
      | true =>
          obtain ⟨hanswer, hafter⟩ := (hacts input).agree hagree hkey
          obtain ⟨hanswers, hlast⟩ := ih hafter
          simp only [List.filter_cons, hkey, if_true, runAll]
          exact ⟨by rw [hanswer, hanswers], hlast⟩
      | false =>
          have hafter : ∀ key, watched key = true →
              (operation input store).2 key = other key := by
            intro key hwatched
            have hne : key ≠ keyOf input := by
              rintro rfl
              simp [hkey] at hwatched
            rw [(hacts input).frame store hne]
            exact hagree key hwatched
          simp only [List.filter_cons, hkey, runAll]
          simpa using ih hafter

end Isolation

end RateLimitedGateway.Foundation
