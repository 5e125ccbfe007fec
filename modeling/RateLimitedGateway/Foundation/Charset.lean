import RateLimitedGateway.Foundation.FormQuery

/-!
# Octets and characters

ISO-8859-1 makes a character of every octet.  UTF-8 agrees with it on octets of
ASCII and on no other: beyond them it takes more octets than characters, so what
is decoded as the one and encoded as the other comes out changed.
-/

namespace RateLimitedGateway.Foundation.Charset

def latin1 (octets : List UInt8) : String :=
  String.ofList (octets.map Char.ofUInt8)

/-- ASCII up to 128, ISO-8859-1 up to 256; no other character has octets. -/
def encode (bound : Nat) (text : String) : Option (List UInt8) :=
  if text.toList.all (·.toNat < bound) then
    some (text.toList.map Char.toUInt8)
  else none

def decodeUtf8 (octets : List UInt8) : Option String :=
  String.fromUTF8? octets.toByteArray

def isAscii (octets : List UInt8) : Bool := octets.all (·.toNat < 128)

/-! ## One octet, one character -/

theorem toNat_ofUInt8 (octet : UInt8) :
    (Char.ofUInt8 octet).toNat = octet.toNat :=
  rfl

theorem toUInt8_ofUInt8 (octet : UInt8) :
    (Char.ofUInt8 octet).toUInt8 = octet :=
  UInt8.toUInt8_toUInt32 octet

theorem octets_latin1 (octets : List UInt8) :
    (latin1 octets).toList.map Char.toUInt8 = octets := by
  have hround : Char.toUInt8 ∘ Char.ofUInt8 = id := funext toUInt8_ofUInt8
  rw [latin1, String.toList_ofList, List.map_map, hround, List.map_id]

theorem encode_latin1 (bound : Nat) (octets : List UInt8) :
    encode bound (latin1 octets) =
      if octets.all (·.toNat < bound) then some octets else none := by
  rw [encode, octets_latin1, latin1, String.toList_ofList, List.all_map]
  rfl

theorem length_of_encode {bound : Nat} {text : String} {octets : List UInt8}
    (h : encode bound text = some octets) :
    octets.length = text.toList.length := by
  rw [encode] at h
  split at h
  · rw [← Option.some.inj h, List.length_map]
  · cases h

/-! ## UTF-8 -/

theorem decodeUtf8_eq_some_iff {octets : List UInt8} {text : String} :
    decodeUtf8 octets = some text ↔ Uri.utf8 text.toList = octets := by
  have hbytes : Uri.utf8 text.toList = octets ↔
      text.toByteArray = octets.toByteArray := by
    rw [← String.utf8Encode_toList, List.utf8Encode, ← Uri.utf8]
    constructor
    · rintro rfl
      rfl
    · intro h
      have := congrArg (fun bytes : ByteArray => bytes.data.toList) h
      simpa using this
  rw [hbytes, decodeUtf8, String.fromUTF8?]
  constructor
  · intro h
    split at h
    · rw [← Option.some.inj h]
      rfl
    · cases h
  · intro h
    rw [← h, dif_pos text.isValidUTF8]
    rfl

theorem decodeUtf8_of_isAscii {octets : List UInt8}
    (h : isAscii octets = true) : decodeUtf8 octets = some (latin1 octets) := by
  rw [decodeUtf8_eq_some_iff, latin1, String.toList_ofList]
  induction octets with
  | nil => rfl
  | cons octet octets ih =>
      rw [isAscii, List.all_cons, Bool.and_eq_true] at h
      rw [List.map_cons, Uri.utf8_cons,
        FormQuery.utf8EncodeChar_of_isAscii (c := Char.ofUInt8 octet) h.1,
        ih h.2, toNat_ofUInt8, UInt8.ofNat_toNat]
      rfl

theorem length_le_utf8 (text : List Char) :
    text.length ≤ (Uri.utf8 text).length := by
  induction text with
  | nil => exact le_rfl
  | cons c text ih =>
      have := Uri.utf8EncodeChar_length_pos c
      rw [Uri.utf8_cons, List.length_append, List.length_cons]
      omega

theorem isAscii_utf8_of_length {text : List Char}
    (h : (Uri.utf8 text).length = text.length) :
    isAscii (Uri.utf8 text) = true := by
  induction text with
  | nil => rfl
  | cons c text ih =>
      have hhead := Uri.utf8EncodeChar_length_pos c
      have hrest := length_le_utf8 text
      rw [Uri.utf8_cons, List.length_append, List.length_cons] at h
      have hsize : c.utf8Size = 1 := by
        rw [String.length_utf8EncodeChar] at h hhead
        omega
      have hascii : FormQuery.isAscii c = true := by
        rw [Char.utf8Size_eq_one_iff, UInt32.le_iff_toNat_le] at hsize
        exact decide_eq_true (Nat.lt_succ_of_le hsize)
      have hlt : c.toNat < 128 := of_decide_eq_true hascii
      rw [Uri.utf8_cons, isAscii, List.all_append,
        FormQuery.utf8EncodeChar_of_isAscii hascii, ← isAscii, ← isAscii,
        ih (by rw [String.length_utf8EncodeChar, hsize] at h; omega)]
      simp [isAscii, Nat.mod_eq_of_lt (by omega : c.toNat < 256), hlt]

/-- What is read as UTF-8 is not written back unless it is ASCII. -/
theorem encode_decodeUtf8_iff {octets : List UInt8} {text : String}
    (h : decodeUtf8 octets = some text) {bound : Nat} (hbound : 128 ≤ bound) :
    encode bound text = some octets ↔ isAscii octets = true := by
  constructor
  · intro hencoded
    have hlength := length_of_encode hencoded
    rw [decodeUtf8_eq_some_iff] at h
    rw [← h] at hlength ⊢
    exact isAscii_utf8_of_length hlength
  · intro hascii
    rw [decodeUtf8_of_isAscii hascii, Option.some_inj] at h
    rw [← h, encode_latin1, if_pos]
    rw [isAscii, List.all_eq_true] at hascii
    rw [List.all_eq_true]
    intro octet hoctet
    have := of_decide_eq_true (hascii octet hoctet)
    exact decide_eq_true (by omega)

end RateLimitedGateway.Foundation.Charset
