import Mathlib.Data.List.Basic

/-!
# Histories of partial deterministic machines

A machine refuses an input, or answers it with an output and a next state.  A
history is the list of the steps taken so far, the latest step first, so that a
function of the past is a structural recursion and an invariant is proved by
looking at the head only.
-/

namespace RateLimitedGateway.Foundation

variable {σ ι ω σ' ι' ω' : Type*}

/-- `none` means that the input cannot occur in the given state. -/
abbrev Machine (σ ι ω : Type*) := σ → ι → Option (ω × σ)

structure Entry (σ ι ω : Type*) where
  before : σ
  input : ι
  output : ω
  after : σ
  deriving DecidableEq, Repr

/-- The entries of a run from `first`, the latest one at the head. -/
inductive History (machine : Machine σ ι ω) (first : σ) :
    List (Entry σ ι ω) → σ → Prop
  | start : History machine first [] first
  | next {past : List (Entry σ ι ω)} {before after : σ} {input : ι}
      {output : ω} (hpast : History machine first past before)
      (hstep : machine before input = some (output, after)) :
      History machine first (⟨before, input, output, after⟩ :: past) after

namespace History

variable {machine : Machine σ ι ω} {first last : σ}
variable {history later earlier : List (Entry σ ι ω)}

theorem cons_iff (entry : Entry σ ι ω) :
    History machine first (entry :: earlier) last ↔
      History machine first earlier entry.before ∧
        machine entry.before entry.input = some (entry.output, entry.after) ∧
        entry.after = last := by
  constructor
  · intro h
    cases h with
    | next hpast hstep => exact ⟨hpast, hstep, rfl⟩
  · rintro ⟨hpast, hstep, rfl⟩
    exact .next hpast hstep

theorem append_iff :
    History machine first (later ++ earlier) last ↔
      ∃ middle, History machine first earlier middle ∧
        History machine middle later last := by
  induction later generalizing last with
  | nil =>
      constructor
      · intro h
        exact ⟨last, h, .start⟩
      · rintro ⟨middle, hearlier, hlater⟩
        cases hlater
        exact hearlier
  | cons entry later ih =>
      simp only [List.cons_append, cons_iff, ih]
      constructor
      · rintro ⟨⟨middle, hearlier, hlater⟩, hstep⟩
        exact ⟨middle, hearlier, hlater, hstep⟩
      · rintro ⟨middle, hearlier, hlater, hstep⟩
        exact ⟨⟨middle, hearlier, hlater⟩, hstep⟩

theorem at_entry {entry : Entry σ ι ω}
    (h : History machine first (later ++ entry :: earlier) last) :
    History machine first earlier entry.before ∧
      machine entry.before entry.input = some (entry.output, entry.after) ∧
      History machine entry.after later last := by
  obtain ⟨middle, hearlier, hlater⟩ := append_iff.mp h
  obtain ⟨hpast, hstep, rfl⟩ := (cons_iff entry).mp hearlier
  exact ⟨hpast, hstep, hlater⟩

theorem from_entry {entry : Entry σ ι ω}
    (h : History machine first (later ++ entry :: earlier) last) :
    History machine entry.before (later ++ [entry]) last := by
  obtain ⟨-, hstep, hlater⟩ := h.at_entry
  have hentry : History machine entry.before [entry] entry.after :=
    (cons_iff entry).mpr ⟨.start, hstep, rfl⟩
  exact append_iff.mpr ⟨entry.after, hentry, hlater⟩

theorem of_mem {entry : Entry σ ι ω}
    (h : History machine first history last) (hmem : entry ∈ history) :
    ∃ past, History machine first past entry.before ∧
      machine entry.before entry.input = some (entry.output, entry.after) := by
  obtain ⟨later, earlier, rfl⟩ := List.append_of_mem hmem
  exact ⟨earlier, h.at_entry.1, h.at_entry.2.1⟩

theorem invariant {P : σ → Prop} (hfirst : P first)
    (hstep : ∀ before input output after, P before →
      machine before input = some (output, after) → P after)
    (h : History machine first history last) : P last := by
  induction h with
  | start => exact hfirst
  | next _ hnext ih => exact hstep _ _ _ _ ih hnext

/--
The rule for properties that only some steps preserve: it asks for the step
only at the entries of the given history.
-/
theorem stable {P : σ → Prop} (hfirst : P first)
    (hstep : ∀ entry ∈ history, P entry.before → P entry.after)
    (h : History machine first history last) :
    P last ∧ ∀ entry ∈ history, P entry.before := by
  induction h with
  | start => exact ⟨hfirst, by simp⟩
  | next _ _ ih =>
      obtain ⟨hbefore, hpast⟩ := ih
        (fun entry hmem => hstep entry (List.mem_cons_of_mem _ hmem))
      refine ⟨hstep _ List.mem_cons_self hbefore, ?_⟩
      intro entry hmem
      rcases List.mem_cons.mp hmem with rfl | hmem
      · exact hbefore
      · exact hpast entry hmem

theorem exists_entrance {P : σ → Prop} (hfirst : ¬ P first)
    (h : History machine first history last) (hlast : P last) :
    ∃ during entrance before, history = during ++ entrance :: before ∧
      ¬ P entrance.before ∧ P entrance.after ∧
      ∀ entry ∈ during, P entry.before := by
  induction h with
  | start => exact absurd hlast hfirst
  | @next past state after input output hpast hstep ih =>
      by_cases hstate : P state
      · obtain ⟨during, entrance, before, rfl, houtside, hinside, hduring⟩ :=
          ih hstate
        refine ⟨⟨state, input, output, after⟩ :: during, entrance, before, rfl,
          houtside, hinside, ?_⟩
        intro entry hmem
        rcases List.mem_cons.mp hmem with rfl | hmem
        · exact hstate
        · exact hduring entry hmem
      · exact ⟨[], ⟨state, input, output, after⟩, past, rfl, hstate, hlast,
          by simp⟩

end History

/-! ## Replaying a list of inputs -/

def replay (machine : Machine σ ι ω) :
    List (Entry σ ι ω) → σ → List ι → Option (List (Entry σ ι ω) × σ)
  | past, state, [] => some (past, state)
  | past, state, input :: inputs =>
      match machine state input with
      | none => none
      | some (output, after) =>
          replay machine (⟨state, input, output, after⟩ :: past) after inputs

theorem history_of_replay {machine : Machine σ ι ω} {first state last : σ}
    {past history : List (Entry σ ι ω)} {inputs : List ι}
    (hpast : History machine first past state)
    (h : replay machine past state inputs = some (history, last)) :
    History machine first history last := by
  induction inputs generalizing past state with
  | nil =>
      simp only [replay, Option.some.injEq, Prod.mk.injEq] at h
      obtain ⟨rfl, rfl⟩ := h
      exact hpast
  | cons input inputs ih =>
      simp only [replay] at h
      cases hstep : machine state input with
      | none => simp [hstep] at h
      | some answer =>
          simp only [hstep] at h
          exact ih (.next hpast hstep) h

def played (machine : Machine σ ι ω) (first : σ) (inputs : List ι) :
    List (Entry σ ι ω) × σ :=
  (replay machine [] first inputs).getD ([], first)

theorem history_played {machine : Machine σ ι ω} {first : σ} {inputs : List ι}
    (h : (replay machine [] first inputs).isSome = true) :
    History machine first (played machine first inputs).1
      (played machine first inputs).2 := by
  obtain ⟨⟨history, last⟩, hreplay⟩ := Option.isSome_iff_exists.mp h
  rw [played, hreplay]
  exact history_of_replay .start hreplay

end RateLimitedGateway.Foundation
