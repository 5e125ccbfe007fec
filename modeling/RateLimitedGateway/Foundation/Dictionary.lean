import Mathlib.Data.List.Induction
import Mathlib.Data.List.Nodup
import Mathlib.Data.List.Perm.Subperm

/-!
# Dictionaries filled from a list of items

A dictionary is the list of its entries, in the order in which their keys came
first.  An item either makes a new entry or is merged into the one with its key,
so that an entry holds what has been accumulated of the values of one key.
-/

namespace RateLimitedGateway.Foundation.Dictionary

variable {κ α ν : Type*} [DecidableEq κ]

def valuesAt (key : κ) (items : List (κ × ν)) : List ν :=
  (items.filter fun item => item.1 = key).map Prod.snd

def insert (first : α → ν) (more : ν → α → ν) (dict : List (κ × ν))
    (item : κ × α) : List (κ × ν) :=
  if dict.any (fun entry => entry.1 = item.1) then
    dict.map fun entry =>
      if entry.1 = item.1 then (item.1, more entry.2 item.2) else entry
  else dict ++ [(item.1, first item.2)]

def collect (first : α → ν) (more : ν → α → ν) (items : List (κ × α)) :
    List (κ × ν) :=
  items.foldl (insert first more) []

def accumulate (first : α → ν) (more : ν → α → ν) : List α → Option ν
  | [] => none
  | value :: values => some (values.foldl more (first value))

/-! ## Values -/

@[simp] theorem valuesAt_nil (key : κ) :
    valuesAt key ([] : List (κ × ν)) = [] :=
  rfl

theorem valuesAt_cons (key : κ) (item : κ × ν) (items : List (κ × ν)) :
    valuesAt key (item :: items) =
      if item.1 = key then item.2 :: valuesAt key items
      else valuesAt key items := by
  by_cases hkey : item.1 = key <;> simp [valuesAt, hkey]

theorem valuesAt_append (key : κ) (items others : List (κ × ν)) :
    valuesAt key (items ++ others) =
      valuesAt key items ++ valuesAt key others := by
  simp [valuesAt]

theorem valuesAt_singleton (key : κ) (item : κ × ν) :
    valuesAt key [item] = if item.1 = key then [item.2] else [] :=
  valuesAt_cons key item []

theorem mem_valuesAt_iff {key : κ} {value : ν} {items : List (κ × ν)} :
    value ∈ valuesAt key items ↔ (key, value) ∈ items := by
  simp only [valuesAt, List.mem_map, List.mem_filter, decide_eq_true_eq]
  constructor
  · rintro ⟨⟨_, _⟩, ⟨hmem, rfl⟩, rfl⟩
    exact hmem
  · intro hmem
    exact ⟨(key, value), ⟨hmem, rfl⟩, rfl⟩

theorem valuesAt_eq_nil_iff {key : κ} {items : List (κ × ν)} :
    valuesAt key items = [] ↔ ∀ item ∈ items, item.1 ≠ key := by
  simp [valuesAt]

theorem any_key_iff {key : κ} {dict : List (κ × ν)} :
    (dict.any fun entry => entry.1 = key) = true ↔ valuesAt key dict ≠ [] := by
  simp [valuesAt_eq_nil_iff]

theorem valuesAt_filter_of_keep (keep : κ → Bool) {key : κ}
    (hkeep : keep key = true) (items : List (κ × ν)) :
    valuesAt key (items.filter fun item => keep item.1) =
      valuesAt key items := by
  rw [valuesAt, List.filter_filter, valuesAt]
  congr 1
  apply List.filter_congr
  intro item _
  by_cases hkey : item.1 = key <;> simp [hkey, hkeep]

theorem valuesAt_filter_of_drop (keep : κ → Bool) {key : κ}
    (hdrop : keep key = false) (items : List (κ × ν)) :
    valuesAt key (items.filter fun item => keep item.1) = [] := by
  rw [valuesAt_eq_nil_iff]
  rintro item hitem rfl
  rw [(List.mem_filter.mp hitem).2] at hdrop
  cases hdrop

theorem valuesAt_map_snd (f : α → ν) (key : κ) (items : List (κ × α)) :
    valuesAt key (items.map fun item => (item.1, f item.2)) =
      (valuesAt key items).map f := by
  rw [valuesAt, List.filter_map, List.map_map, valuesAt, List.map_map]
  rfl

theorem length_valuesAt (key : κ) (items : List (κ × ν)) :
    (valuesAt key items).length = (items.map Prod.fst).count key := by
  rw [valuesAt, List.length_map, List.count, List.countP_map,
    List.countP_eq_length_filter]
  congr 1

theorem nodup_keys_iff {items : List (κ × ν)} :
    (items.map Prod.fst).Nodup ↔ ∀ key, (valuesAt key items).length ≤ 1 := by
  rw [List.nodup_iff_count_le_one]
  exact forall_congr' fun key => by rw [length_valuesAt]

/-! ## Filling a dictionary -/

section Collect

variable (first : α → ν) (more : ν → α → ν)

theorem accumulate_append_singleton (values : List α) (value : α) :
    accumulate first more (values ++ [value]) =
      some ((accumulate first more values).elim (first value)
        (more · value)) := by
  cases values <;> simp [accumulate]

theorem accumulate_eq_none_iff {values : List α} :
    accumulate first more values = none ↔ values = [] := by
  cases values <;> simp [accumulate]

theorem accumulate_toList (more : α → α → α) (value : Option α) :
    accumulate id more value.toList = value := by
  cases value <;> rfl

theorem accumulate_last (values : List α) :
    accumulate id (fun _ value => value) values = values.getLast? := by
  induction values using List.reverseRecOn with
  | nil => rfl
  | append_singleton values value _ =>
      rw [accumulate_append_singleton, List.getLast?_concat]
      cases accumulate id (fun _ value => value) values <;> rfl

theorem collect_append_singleton (items : List (κ × α)) (item : κ × α) :
    collect first more (items ++ [item]) =
      insert first more (collect first more items) item := by
  simp [collect]

theorem valuesAt_map_merge (key : κ) (dict : List (κ × ν)) (item : κ × α) :
    valuesAt key (dict.map fun entry =>
        if entry.1 = item.1 then (item.1, more entry.2 item.2) else entry) =
      if item.1 = key then (valuesAt key dict).map (more · item.2)
      else valuesAt key dict := by
  induction dict with
  | nil => simp
  | cons entry dict ih =>
      rw [List.map_cons, valuesAt_cons, valuesAt_cons, ih]
      by_cases hentry : entry.1 = item.1
      · by_cases hkey : item.1 = key <;> simp [hentry, hkey]
      · by_cases hkey : item.1 = key
        · have hother : entry.1 ≠ key := hkey ▸ hentry
          simp [hkey, hother]
        · simp [hentry, hkey]

theorem valuesAt_insert (key : κ) (dict : List (κ × ν)) (item : κ × α) :
    valuesAt key (insert first more dict item) =
      if item.1 = key then
        if valuesAt key dict = [] then [first item.2]
        else (valuesAt key dict).map (more · item.2)
      else valuesAt key dict := by
  rw [insert]
  by_cases hkey : item.1 = key
  · subst hkey
    by_cases habsent : valuesAt item.1 dict = []
    · rw [if_neg (mt any_key_iff.mp (not_not.mpr habsent)), valuesAt_append,
        valuesAt_singleton, if_pos rfl, if_pos rfl, if_pos habsent, habsent,
        List.nil_append]
    · rw [if_pos (any_key_iff.mpr habsent), valuesAt_map_merge, if_pos rfl,
        if_pos rfl, if_neg habsent]
  · rw [if_neg hkey]
    split
    · rw [valuesAt_map_merge, if_neg hkey]
    · rw [valuesAt_append, valuesAt_singleton, if_neg hkey, List.append_nil]

/-- There is one entry for each key: what its values come to. -/
theorem valuesAt_collect (key : κ) (items : List (κ × α)) :
    valuesAt key (collect first more items) =
      (accumulate first more (valuesAt key items)).toList := by
  induction items using List.reverseRecOn with
  | nil => rfl
  | append_singleton items item ih =>
      rw [collect_append_singleton, valuesAt_insert, ih, valuesAt_append,
        valuesAt_singleton]
      split
      · rw [accumulate_append_singleton]
        cases accumulate first more (valuesAt key items) <;> simp
      · rw [List.append_nil]

theorem length_valuesAt_collect_le (key : κ) (items : List (κ × α)) :
    (valuesAt key (collect first more items)).length ≤ 1 := by
  rw [valuesAt_collect]
  cases accumulate first more (valuesAt key items) <;> simp

theorem keys_collect_nodup (items : List (κ × α)) :
    ((collect first more items).map Prod.fst).Nodup :=
  nodup_keys_iff.mpr fun key => length_valuesAt_collect_le first more key items

theorem mem_keys_collect_iff {key : κ} {items : List (κ × α)} :
    key ∈ (collect first more items).map Prod.fst ↔
      key ∈ items.map Prod.fst := by
  rw [← List.count_pos_iff, ← List.count_pos_iff, ← length_valuesAt,
    ← length_valuesAt, valuesAt_collect]
  cases valuesAt key items <;> simp [accumulate]

end Collect

end RateLimitedGateway.Foundation.Dictionary
