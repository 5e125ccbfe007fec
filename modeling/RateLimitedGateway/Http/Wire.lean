import RateLimitedGateway.Foundation.Charset
import RateLimitedGateway.Http.Fields

/-!
# Header fields on the wire

The values of fields are octets there.  Starlette reads and writes them as
Latin-1; `httpx` writes ASCII only, and reads all fields of a message in one
charset, which is UTF-8 wherever that is possible.
-/

namespace RateLimitedGateway.Http

open RateLimitedGateway.Foundation

/-- Servers and clients alike accept no name but of ASCII characters. -/
structure WireField where
  name : String
  value : List UInt8
  name_isAscii : name.toList.all (·.toNat < 128) = true

def octetsAt (items : List (String × List UInt8)) (name : String) :
    List (List UInt8) :=
  Dictionary.valuesAt (lower name)
    (items.map fun item => (lower item.1, item.2))

namespace WireField

def items (fields : List WireField) : List (String × List UInt8) :=
  fields.map fun field => (field.name, field.value)

def values (fields : List WireField) (name : String) : List (List UInt8) :=
  octetsAt (items fields) name

def decoded (charset : List UInt8 → String) (fields : List WireField) :
    Headers :=
  fields.map fun field => (field.name, charset field.value)

def IsUtf8 (fields : List WireField) : Prop :=
  ∀ field ∈ fields, (Charset.decodeUtf8 field.value).isSome = true

instance (fields : List WireField) : Decidable (IsUtf8 fields) :=
  inferInstanceAs (Decidable (∀ _ ∈ _, _))

/-- `httpx.Headers.encoding`: ASCII, or else UTF-8, or else Latin-1. -/
def encoding (fields : List WireField) : List UInt8 → String :=
  if fields.all (Charset.isAscii ·.value) then Charset.latin1
  else if IsUtf8 fields then
    fun octets => (Charset.decodeUtf8 octets).getD ""
  else Charset.latin1

end WireField

def Headers.octets (headers : Headers) : List (String × List UInt8) :=
  headers.map fun field => (field.1, field.2.toList.map Char.toUInt8)

/-! ## Values by name -/

namespace WireField

variable {fields : List WireField} {name : String}

theorem mem_values_iff {value : List UInt8} :
    value ∈ values fields name ↔
      ∃ field ∈ fields, lower field.name = lower name ∧
        field.value = value := by
  simp [values, octetsAt, items, Dictionary.mem_valuesAt_iff]

theorem values_decoded (charset : List UInt8 → String)
    (fields : List WireField) (name : String) :
    (decoded charset fields).values name = (values fields name).map charset :=
    by
  rw [values, octetsAt, ← Dictionary.valuesAt_map_snd, Headers.values,
    Headers.lowered, decoded, items]
  simp only [List.map_map, Function.comp_def]

theorem encoding_eq {value : List UInt8} (hvalue : value ∈ values fields name) :
    if IsUtf8 fields then
      Charset.decodeUtf8 value = some (encoding fields value)
    else encoding fields value = Charset.latin1 value := by
  obtain ⟨field, hfield, -, rfl⟩ := mem_values_iff.mp hvalue
  by_cases hascii : fields.all (Charset.isAscii ·.value) = true
  · have hdecoded := Charset.decodeUtf8_of_isAscii
      (List.all_eq_true.mp hascii field hfield)
    rw [encoding, if_pos hascii]
    split
    · exact hdecoded
    · rfl
  · by_cases hutf8 : IsUtf8 fields
    · rw [if_pos hutf8, encoding, if_neg hascii, if_pos hutf8]
      obtain ⟨text, htext⟩ := Option.isSome_iff_exists.mp (hutf8 field hfield)
      rw [htext]
      rfl
    · rw [if_neg hutf8, encoding, if_neg hascii, if_neg hutf8]

end WireField

theorem octetsAt_octets (headers : Headers) (name : String) :
    octetsAt headers.octets name =
      (headers.values name).map fun text => text.toList.map Char.toUInt8 := by
  rw [octetsAt, Headers.values, ← Dictionary.valuesAt_map_snd, Headers.lowered,
    Headers.octets]
  simp only [List.map_map, Function.comp_def]

/-! ## What can be encoded -/

theorem all_lower_lt_iff {bound : Nat} (hbound : 123 ≤ bound) (name : String) :
    (lower name).toList.all (·.toNat < bound) =
      name.toList.all (·.toNat < bound) := by
  rw [lower, String.toList_ofList, List.all_map]
  congr 1
  funext c
  by_cases hupper : 65 ≤ c.toNat ∧ c.toNat ≤ 90
  · have hlower := toNat_toLower hupper
    simp only [Function.comp_apply, decide_eq_decide]
    omega
  · simp only [Function.comp_apply, toLower_eq_self hupper]

theorem encodable_iff {bound : Nat} (hbound : 123 ≤ bound) {headers : Headers} :
    headers.encodable bound = true ↔
      ∀ name, ∀ value ∈ headers.values name,
        (lower name).toList.all (·.toNat < bound) = true ∧
          value.toList.all (·.toNat < bound) = true := by
  rw [Headers.encodable, List.all_eq_true]
  constructor
  · intro hall name value hvalue
    rw [Headers.values, Dictionary.mem_valuesAt_iff, Headers.lowered,
      List.mem_map] at hvalue
    obtain ⟨field, hfield, heq⟩ := hvalue
    obtain ⟨hname, rfl⟩ := Prod.mk.inj heq
    have hboth := hall field hfield
    rw [List.all_append, Bool.and_eq_true, ← all_lower_lt_iff hbound,
      hname] at hboth
    exact hboth
  · intro hall field hfield
    have hboth := hall field.1 field.2 (Headers.mem_values_of_mem hfield)
    rw [all_lower_lt_iff hbound] at hboth
    rw [List.all_append, Bool.and_eq_true]
    exact hboth

end RateLimitedGateway.Http
