import RateLimitedGateway.Foundation.History
import RateLimitedGateway.Foundation.KeyedStore

/-!
# Part of a machine

A part of a large machine's state is itself the state of a small machine, if
each step of the large one is a step of the small one or leaves the part alone.
The history of the small machine is then what the large one's history shows of
it.
-/

namespace RateLimitedGateway.Foundation

variable {σ ι ω σ' ι' ω' κ ν : Type*}

def Entry.shown (part : σ → σ') (view : Entry σ ι ω → Option (ι' × ω'))
    (entry : Entry σ ι ω) : Option (Entry σ' ι' ω') :=
  (view entry).map fun seen =>
    ⟨part entry.before, seen.1, seen.2, part entry.after⟩

theorem map_shown (part : σ → σ') (view : Entry σ ι ω → Option (ι' × ω'))
    (history : List (Entry σ ι ω)) :
    (history.filterMap (Entry.shown part view)).map
      (fun entry => (entry.input, entry.output)) = history.filterMap view := by
  rw [List.map_filterMap]
  congr 1
  funext entry
  simp [Entry.shown, Function.comp_def]

/-- The step of the large machine is one of the small machine, or none. -/
def Entry.Simulates (machine : Machine σ' ι' ω') (part : σ → σ')
    (view : Entry σ ι ω → Option (ι' × ω')) (entry : Entry σ ι ω) : Prop :=
  match view entry with
  | none => part entry.after = part entry.before
  | some (input, output) =>
      machine (part entry.before) input = some (output, part entry.after)

namespace History

variable {large : Machine σ ι ω} {small : Machine σ' ι' ω'}
variable {first last : σ} {history : List (Entry σ ι ω)}

theorem project {part : σ → σ'} {view : Entry σ ι ω → Option (ι' × ω')}
    (h : History large first history last)
    (hstep : ∀ entry : Entry σ ι ω,
      large entry.before entry.input = some (entry.output, entry.after) →
      entry.Simulates small part view) :
    History small (part first) (history.filterMap (Entry.shown part view))
      (part last) := by
  induction h with
  | start => exact .start
  | @next past before after input output _ hnext ih =>
      have hsimulates := hstep ⟨before, input, output, after⟩ hnext
      unfold Entry.Simulates at hsimulates
      cases hview : view ⟨before, input, output, after⟩ with
      | none =>
          simp only [hview] at hsimulates
          rw [List.filterMap_cons_none (by simp [Entry.shown, hview]),
            hsimulates]
          exact ih
      | some seen =>
          simp only [hview] at hsimulates
          rw [List.filterMap_cons_some
            (b := ⟨part before, seen.1, seen.2, part after⟩)
            (by simp [Entry.shown, hview])]
          exact ih.next hsimulates

theorem countP_project {part : σ → σ'} {view : Entry σ ι ω → Option (ι' × ω')}
    {changes : σ' → σ' → Bool} (hsame : ∀ state, changes state state = false)
    (h : History large first history last)
    (hstep : ∀ entry : Entry σ ι ω,
      large entry.before entry.input = some (entry.output, entry.after) →
      entry.Simulates small part view) :
    (history.filterMap (Entry.shown part view)).countP
        (fun entry => changes entry.before entry.after) =
      history.countP fun entry =>
        changes (part entry.before) (part entry.after) := by
  rw [List.countP_filterMap]
  apply List.countP_congr
  intro entry hmem
  obtain ⟨-, -, hnext⟩ := h.of_mem hmem
  have hsimulates := hstep entry hnext
  unfold Entry.Simulates at hsimulates
  cases hview : view entry with
  | none =>
      simp only [hview] at hsimulates
      simp [Entry.shown, hview, hsimulates, hsame]
  | some seen => simp [Entry.shown, hview]

end History

/-! ## Operations on a store as a machine -/

def storeMachine (operation : ι → Operation κ ν ω) : Machine (κ → ν) ι ω :=
  fun store input => some (operation input store)

theorem runAll_concat (operation : ι → Operation κ ν ω) (inputs : List ι)
    (input : ι) (store : κ → ν) :
    runAll operation (inputs ++ [input]) store =
      let earlier := runAll operation inputs store
      (earlier.1 ++ [(input, (operation input earlier.2).1)],
        (operation input earlier.2).2) := by
  induction inputs generalizing store with
  | nil => rfl
  | cons head inputs ih =>
      simp only [List.cons_append, runAll, ih]

theorem runAll_of_history {operation : ι → Operation κ ν ω}
    {first last : κ → ν} {history : List (Entry (κ → ν) ι ω)}
    (h : History (storeMachine operation) first history last) :
    runAll operation (history.reverse.map (·.input)) first =
      (history.reverse.map fun entry => (entry.input, entry.output), last) := by
  induction h with
  | start => rfl
  | @next past before after input output _ hstep ih =>
      simp only [storeMachine, Option.some_inj] at hstep
      rw [List.reverse_cons, List.map_append, List.map_append,
        List.map_singleton, List.map_singleton, runAll_concat, ih]
      simp only [hstep]

end RateLimitedGateway.Foundation
