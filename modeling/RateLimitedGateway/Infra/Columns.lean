import Mathlib.Data.List.Basic

/-!
# Text columns

A `String(n)` column bounds the length of its texts.  PostgreSQL refuses what is
longer, unless all that is too much are spaces, and it has no text with `U+0000`
in it at all.
-/

namespace RateLimitedGateway.Infra

def nulFree (text : String) : Bool := text.toList.all (· ≠ '\x00')

def Fits (n : ℕ) (text : String) : Prop :=
  text.length ≤ n ∧ nulFree text = true

instance (n : ℕ) (text : String) : Decidable (Fits n text) :=
  inferInstanceAs (Decidable (_ ∧ _))

/-- What a `String(n)` column makes of a text: spaces past its end are cut. -/
def varchar (n : ℕ) (text : String) : Option String :=
  if Fits n text then some text
  else if nulFree text ∧ (text.toList.drop n).all (· = ' ') then
    some (String.ofList (text.toList.take n))
  else none

theorem varchar_eq_self_iff {n : ℕ} {text : String} :
    varchar n text = some text ↔ Fits n text := by
  unfold varchar
  split
  · next hfits => simp [hfits]
  · next hfits =>
      simp only [hfits, iff_false]
      split
      · next hcut =>
          -- what is cut off is missing
          intro hsame
          apply hfits
          refine ⟨?_, hcut.1⟩
          rw [← Option.some_inj.mp hsame, String.length_ofList]
          exact List.length_take_le n _
      · simp

def Uncut (n : ℕ) (kept : String) : Prop :=
  ∀ text, varchar n text = some kept → text = kept

theorem uncut_of_length_lt {n : ℕ} {kept : String} (hshort : kept.length < n) :
    Uncut n kept := by
  intro text hkept
  unfold varchar at hkept
  split at hkept
  · exact Option.some_inj.mp hkept
  · next hfits =>
      split at hkept
      · next hcut =>
          rw [← Option.some_inj.mp hkept, String.length_ofList,
            List.length_take, String.length_toList] at hshort
          exact absurd ⟨by omega, hcut.1⟩ hfits
      · cases hkept

def nullable (column : String → Option String) :
    Option String → Option (Option String)
  | none => some none
  | some text => (column text).map some

end RateLimitedGateway.Infra
