import RateLimitedGateway.Foundation.Dictionary
import RateLimitedGateway.Http.Message

/-!
# Header fields by name

Fields travel as lists, but the gateway handles them as dictionaries.  A `dict`
of fields has one entry for each spelling of a name, `httpx` presents one entry
for each name, and a lookup by name does not look at the other fields.
-/

namespace RateLimitedGateway.Http

open RateLimitedGateway.Foundation

/-! ## Names in lower case -/

theorem toLower_eq_self {c : Char} (h : ¬ (65 ≤ c.toNat ∧ c.toNat ≤ 90)) :
    c.toLower = c := by
  apply dif_neg
  intro hupper
  rw [ge_iff_le, UInt32.le_iff_toNat_le, UInt32.le_iff_toNat_le,
    Char.toNat_val] at hupper
  exact h hupper

theorem toNat_toLower {c : Char} (h : 65 ≤ c.toNat ∧ c.toNat ≤ 90) :
    c.toLower.toNat = c.toNat + 32 := by
  have hupper : c.val ≥ 'A'.val ∧ c.val ≤ 'Z'.val := by
    rw [ge_iff_le, UInt32.le_iff_toNat_le, UInt32.le_iff_toNat_le,
      Char.toNat_val]
    exact h
  have hgap : ('a'.val - 'A'.val).toNat = 32 := rfl
  have hlower : c.toLower.val = c.val + ('a'.val - 'A'.val) :=
    congrArg Char.val (dif_pos hupper)
  rw [← Char.toNat_val, hlower, UInt32.toNat_add, Char.toNat_val, hgap]
  omega

theorem toLower_toLower (c : Char) : c.toLower.toLower = c.toLower := by
  by_cases hupper : 65 ≤ c.toNat ∧ c.toNat ≤ 90
  · apply toLower_eq_self
    rw [toNat_toLower hupper]
    omega
  · rw [toLower_eq_self hupper, toLower_eq_self hupper]

theorem lower_lower (name : String) : lower (lower name) = lower name := by
  simp only [lower, String.toList_ofList, List.map_map, Function.comp_def,
    toLower_toLower]

namespace Headers

def join (headers : Headers) (name value : String) : Headers :=
  if headers.any (fun field => field.1 = name) then
    headers.map fun field =>
      if field.1 = name then (name, field.2 ++ ", " ++ value) else field
  else headers ++ [(name, value)]

/-- `httpx.Headers.items()`. -/
def joined (fields : Headers) : Headers :=
  fields.foldl (fun headers field => headers.join (lower field.1) field.2) []

/-! ## The names of a dictionary -/

def names (headers : Headers) : List String := headers.map Prod.fst

theorem any_name_iff (headers : Headers) (name : String) :
    (headers.any fun field => field.1 = name) = true ↔
      name ∈ headers.names := by
  simp only [names, List.any_eq_true, List.mem_map, decide_eq_true_eq]

theorem set_of_not_mem {headers : Headers} {name : String}
    (hnew : name ∉ headers.names) (value : String) :
    headers.set name value = headers ++ [(name, value)] := by
  rw [set, if_neg (mt (any_name_iff headers name).mp hnew)]

theorem ofItems_append_singleton (items : Headers) (field : String × String) :
    ofItems (items ++ [field]) = (ofItems items).set field.1 field.2 := by
  simp [ofItems]

theorem ofItems_of_nodup {items : Headers} (hnodup : items.names.Nodup) :
    ofItems items = items := by
  induction items using List.reverseRecOn with
  | nil => rfl
  | append_singleton items field ih =>
      have hnames : names (items ++ [field]) = names items ++ [field.1] := by
        simp [names]
      rw [hnames, List.nodup_append] at hnodup
      obtain ⟨hitems, -, hnew⟩ := hnodup
      rw [ofItems_append_singleton, ih hitems, set_of_not_mem]
      intro hmem
      exact hnew _ hmem _ (List.mem_singleton_self _) rfl

/-! ## The values of a name -/

/-- The fields as Starlette presents them. -/
def lowered (fields : Headers) : Headers :=
  fields.map fun field => (lower field.1, field.2)

def values (fields : Headers) (name : String) : List String :=
  Dictionary.valuesAt (lower name) fields.lowered

theorem lowered_lowered (fields : Headers) :
    fields.lowered.lowered = fields.lowered := by
  simp [lowered, lower_lower]

theorem lowered_eq_self_iff {fields : Headers} :
    fields.lowered = fields ↔ ∀ name ∈ fields.names, lower name = name := by
  have hmap : fields.lowered = fields ↔
      fields.map (fun field => (lower field.1, field.2)) = fields.map id := by
    rw [List.map_id, lowered]
  rw [hmap, List.map_inj_left]
  simp [names]

theorem lowered_append (fields others : Headers) :
    lowered (fields ++ others) = fields.lowered ++ others.lowered :=
  List.map_append

theorem values_append (fields others : Headers) (name : String) :
    values (fields ++ others) name = fields.values name ++ others.values name :=
  by rw [values, lowered_append, Dictionary.valuesAt_append, values, values]

theorem values_lowered (fields : Headers) (name : String) :
    fields.lowered.values name = fields.values name := by
  rw [values, lowered_lowered, values]

theorem values_eq_nil_iff {fields : Headers} {name : String} :
    fields.values name = [] ↔ lower name ∉ fields.lowered.names := by
  rw [values, Dictionary.valuesAt_eq_nil_iff, names, List.mem_map]
  simp only [not_exists, not_and, ne_eq]

theorem mem_values_of_mem {fields : Headers} {field : String × String}
    (hmem : field ∈ fields) : field.2 ∈ fields.values field.1 := by
  rw [values, Dictionary.mem_valuesAt_iff, lowered, List.mem_map]
  exact ⟨field, hmem, rfl⟩

theorem ofItems_eq_collect (items : Headers) :
    ofItems items = Dictionary.collect id (fun _ value => value) items :=
  rfl

theorem joined_eq_collect (fields : Headers) :
    joined fields =
      Dictionary.collect id (fun old value => old ++ ", " ++ value)
        fields.lowered := by
  rw [joined, Dictionary.collect, lowered, List.foldl_map]
  rfl

theorem names_joined_nodup (fields : Headers) :
    (joined fields).names.Nodup := by
  rw [joined_eq_collect]
  exact Dictionary.keys_collect_nodup _ _ _

theorem lowered_collect (first : String → String)
    (more : String → String → String) {items : Headers}
    (hlowered : items.lowered = items) :
    lowered (Dictionary.collect first more items) =
      Dictionary.collect first more items := by
  rw [lowered_eq_self_iff] at hlowered ⊢
  intro name hname
  exact hlowered name ((Dictionary.mem_keys_collect_iff first more).mp hname)

theorem values_collect (first : String → String)
    (more : String → String → String) {items : Headers}
    (hlowered : items.lowered = items) (name : String) :
    values (Dictionary.collect first more items) name =
      (Dictionary.accumulate first more (items.values name)).toList := by
  rw [values, lowered_collect first more hlowered,
    Dictionary.valuesAt_collect, values, hlowered]

/-! ## Lookup by name -/

theorem get_append (first second : Headers) (name : String) :
    Headers.get (first ++ second) name =
      (first.get name).or (second.get name) := by
  simp only [get, List.find?_append, Option.map_or]

theorem get_filter (keep : String → Bool) {name : String}
    (hkeep : keep (lower name) = true) (headers : Headers) :
    Headers.get (headers.filter fun field => keep (lower field.1)) name =
      headers.get name := by
  simp only [get, List.find?_filter]
  congr 2
  funext field
  by_cases hname : lower field.1 = lower name <;> simp [hname, hkeep]

theorem get_lowered (headers : Headers) (name : String) :
    headers.lowered.get name = headers.get name := by
  simp only [lowered, get, List.find?_map, Option.map_map, Function.comp_def,
    lower_lower]

theorem get_eq_none_iff (headers : Headers) (name : String) :
    headers.get name = none ↔ lower name ∉ headers.lowered.names := by
  simp [get, names, lowered]

theorem get_eq_none_of_lower_eq {headers : Headers} {name : String}
    (hname : lower name = name) (hnew : name ∉ headers.lowered.names) :
    headers.get name = none := by
  rw [get_eq_none_iff, hname]
  exact hnew

end Headers

end RateLimitedGateway.Http
