import Mathlib.Data.List.SplitBy
import RateLimitedGateway.Foundation.Dictionary
import RateLimitedGateway.Foundation.Uri

/-!
# Queries of names and values

How `urllib.parse` writes a list of names and values as a query, and how it
reads one: quoted by octets of UTF-8, with a plus for each space.
-/

namespace RateLimitedGateway.Foundation.FormQuery

open RateLimitedGateway.Foundation

/-! ## UTF-8 with replacement -/

def isContinuation (byte : UInt8) : Bool := 0x80 ≤ byte ∧ byte ≤ 0xBF

def sequenceOf (lead : UInt8) : Option (Nat × UInt8 × UInt8) :=
  if 0xC2 ≤ lead ∧ lead ≤ 0xDF then some (2, 0x80, 0xBF)
  else if lead = 0xE0 then some (3, 0xA0, 0xBF)
  else if lead = 0xED then some (3, 0x80, 0x9F)
  else if 0xE1 ≤ lead ∧ lead ≤ 0xEF then some (3, 0x80, 0xBF)
  else if lead = 0xF0 then some (4, 0x90, 0xBF)
  else if 0xF1 ≤ lead ∧ lead ≤ 0xF3 then some (4, 0x80, 0xBF)
  else if lead = 0xF4 then some (4, 0x80, 0x8F)
  else none

def malformedLength : List UInt8 → Nat
  | lead :: second :: rest =>
      match sequenceOf lead with
      | some (length, low, high) =>
          if low ≤ second ∧ second ≤ high then
            2 + ((rest.take (length - 2)).takeWhile isContinuation).length
          else 1
      | none => 1
  | _ => 1

def decodeSequences : Nat → List UInt8 → List Char
  | 0, _ => []
  | _ + 1, [] => []
  | fuel + 1, bytes =>
      match bytes.toByteArray.utf8DecodeChar? 0 with
      | some c => c :: decodeSequences fuel (bytes.drop c.utf8Size)
      | none => '\uFFFD' :: decodeSequences fuel
          (bytes.drop (malformedLength bytes))

/-- `bytes.decode('utf-8', 'replace')`; each step takes an octet at least. -/
def decodeUtf8 (bytes : List UInt8) : List Char :=
  decodeSequences bytes.length bytes

/-! ## Quoting -/

def isSafe (c : Char) : Bool := c.isAlphanum || c ∈ ['_', '.', '-', '~']

def hexChar (digit : Nat) : Char :=
  if digit < 10 then Char.ofNat (48 + digit) else Char.ofNat (55 + digit)

def quoteByte (byte : UInt8) : List Char :=
  let c := Char.ofNat byte.toNat
  if isSafe c then [c]
  else if c = ' ' then ['+']
  else ['%', hexChar (byte.toNat / 16), hexChar (byte.toNat % 16)]

def quotePlus (text : List Char) : List Char :=
  (Uri.utf8 text).flatMap quoteByte

def isAscii (c : Char) : Bool := c.toNat < 128

/-- `unquote` decodes the octets of each run of ASCII characters by itself. -/
def unquote (text : List Char) : List Char :=
  (text.splitBy fun c d => isAscii c = isAscii d).flatMap fun run =>
    if run.all isAscii then decodeUtf8 (Uri.percentDecode run) else run

def plusToSpace (c : Char) : Char := if c = '+' then ' ' else c

def unquotePlus (text : List Char) : List Char :=
  unquote (text.map plusToSpace)

/-! ## Queries -/

def parseItem (piece : List Char) : List Char × List Char :=
  (unquotePlus (piece.takeWhile (· ∉ ['='])),
    unquotePlus ((piece.dropWhile (· ∉ ['='])).drop 1))

def parseQsl (query : List Char) : List (List Char × List Char) :=
  ((query.splitOn '&').filter (· ≠ [])).map parseItem

/-- `parse_qs` with `keep_blank_values`: a `dict` of lists. -/
def parseQs (query : List Char) : List (List Char × List (List Char)) :=
  Dictionary.collect (fun value => [value])
    (fun values value => values ++ [value]) (parseQsl query)

def renderItem (item : List Char × List Char) : List Char :=
  quotePlus item.1 ++ '=' :: quotePlus item.2

def urlencode (items : List (List Char × List Char)) : List Char :=
  ['&'].intercalate (items.map renderItem)

/-! ## Decoding what was encoded -/

theorem decodeSequences_utf8 (text : List Char) {fuel : Nat}
    (hfuel : (Uri.utf8 text).length ≤ fuel) :
    decodeSequences fuel (Uri.utf8 text) = text := by
  induction text generalizing fuel with
  | nil => cases fuel <;> rfl
  | cons c text ih =>
      rw [Uri.utf8_cons] at hfuel ⊢
      rw [List.length_append] at hfuel
      have hpos := Uri.utf8EncodeChar_length_pos c
      have hchar : (String.utf8EncodeChar c ++
          Uri.utf8 text).toByteArray.utf8DecodeChar? 0 = some c := by
        rw [List.toByteArray_append]
        exact ByteArray.utf8DecodeChar?_utf8EncodeChar_append
      have hdrop : (String.utf8EncodeChar c ++ Uri.utf8 text).drop c.utf8Size =
          Uri.utf8 text := by
        rw [← String.length_utf8EncodeChar, List.drop_left]
      obtain ⟨fuel, rfl⟩ : ∃ less, fuel = less + 1 := ⟨fuel - 1, by omega⟩
      have hrest : decodeSequences fuel (Uri.utf8 text) = text :=
        ih (by omega)
      rw [decodeSequences, hchar]
      · simp only [hdrop, hrest]
      · intro hnil
        rw [List.append_eq_nil_iff] at hnil
        rw [hnil.1] at hpos
        exact absurd hpos (by simp)

theorem decodeUtf8_utf8 (text : List Char) :
    decodeUtf8 (Uri.utf8 text) = text :=
  decodeSequences_utf8 text le_rfl

/-! ## The characters of a quoted text -/

theorem isAscii_of_isAlphanum {c : Char} (hc : c.isAlphanum = true) :
    isAscii c = true := by
  unfold Char.isAlphanum Char.isAlpha Char.isUpper Char.isLower Char.isDigit
    at hc
  simp only [Bool.or_eq_true, Bool.and_eq_true, decide_eq_true_eq,
    UInt32.le_iff_toNat_le, ge_iff_le] at hc
  have hupper : 'Z'.val.toNat = 90 := rfl
  have hlower : 'z'.val.toNat = 122 := rfl
  have hdigit : '9'.val.toNat = 57 := rfl
  simp only [isAscii, decide_eq_true_eq, Char.toNat]
  omega

theorem isAscii_of_isSafe {c : Char} (hc : isSafe c = true) :
    isAscii c = true := by
  rw [isSafe, Bool.or_eq_true] at hc
  rcases hc with halphanum | hmark
  · exact isAscii_of_isAlphanum halphanum
  · simp only [List.mem_cons, List.not_mem_nil, or_false,
      decide_eq_true_eq] at hmark
    rcases hmark with rfl | rfl | rfl | rfl <;> decide

theorem hexChar_isSafe {digit : Nat} (hdigit : digit < 16) :
    isSafe (hexChar digit) = true := by
  have hall : ∀ digit : Fin 16, isSafe (hexChar digit) = true := by decide
  exact hall ⟨digit, hdigit⟩

theorem hexDigit_hexChar {digit : Nat} (hdigit : digit < 16) :
    Uri.hexDigit (hexChar digit) = some digit := by
  have hall : ∀ digit : Fin 16,
      Uri.hexDigit (hexChar digit) = some digit.val := by
    decide
  exact hall ⟨digit, hdigit⟩

def isQuoted (c : Char) : Bool := isSafe c || c ∈ ['+', '%']

theorem isAscii_of_isQuoted {c : Char} (hc : isQuoted c = true) :
    isAscii c = true := by
  rw [isQuoted, Bool.or_eq_true] at hc
  rcases hc with hsafe | hmark
  · exact isAscii_of_isSafe hsafe
  · simp only [List.mem_cons, List.not_mem_nil, or_false,
      decide_eq_true_eq] at hmark
    rcases hmark with rfl | rfl <;> decide

theorem quotePlus_isQuoted (text : List Char) :
    ∀ c ∈ quotePlus text, isQuoted c = true := by
  intro c hc
  obtain ⟨byte, -, hbyte⟩ := List.mem_flatMap.mp hc
  have hbound := byte.toNat_lt
  have hlow : isSafe (hexChar (byte.toNat % 16)) = true :=
    hexChar_isSafe (by omega)
  have hhigh : isSafe (hexChar (byte.toNat / 16)) = true :=
    hexChar_isSafe (by omega)
  unfold quoteByte at hbyte
  simp only [] at hbyte
  split at hbyte
  · next hsafe =>
    rw [List.mem_singleton.mp hbyte, isQuoted, hsafe, Bool.true_or]
  · split at hbyte
    · rw [List.mem_singleton.mp hbyte]
      decide
    · simp only [List.mem_cons, List.not_mem_nil, or_false] at hbyte
      rcases hbyte with rfl | rfl | rfl
      · decide
      · rw [isQuoted, hhigh, Bool.true_or]
      · rw [isQuoted, hlow, Bool.true_or]

theorem quotePlus_free {stops : List Char}
    (hstops : stops.any isQuoted = false) (text : List Char) :
    Uri.Free stops (quotePlus text) := by
  intro c hc hstop
  have hquoted := quotePlus_isQuoted text c hc
  exact absurd hquoted (List.any_eq_false.mp hstops c hstop)

/-! ## Unquoting what was quoted -/

theorem utf8EncodeChar_of_isAscii {c : Char} (hc : isAscii c = true) :
    String.utf8EncodeChar c = [UInt8.ofNat c.toNat] := by
  have hlt : c.toNat < 128 := of_decide_eq_true hc
  have hsize : c.utf8Size = 1 := by
    rw [Char.utf8Size_eq_one_iff, UInt32.le_iff_toNat_le]
    exact Nat.le_of_lt_succ hlt
  rw [String.utf8EncodeChar_eq_singleton hsize]
  rfl

theorem percentDecode_of_isAscii {c : Char} (hc : isAscii c = true)
    (hne : c ≠ '%') (rest : List Char) :
    Uri.percentDecode (c :: rest) =
      UInt8.ofNat c.toNat :: Uri.percentDecode rest := by
  rw [Uri.percentDecode_cons fun _ _ _ h => absurd h hne,
    utf8EncodeChar_of_isAscii hc]
  rfl

theorem isSafe_ne {c mark : Char} (hc : isSafe c = true)
    (hmark : isSafe mark = false) : c ≠ mark := by
  rintro rfl
  rw [hc] at hmark
  cases hmark

theorem percentDecode_quoteByte (byte : UInt8) (rest : List Char) :
    Uri.percentDecode ((quoteByte byte).map plusToSpace ++ rest) =
      byte :: Uri.percentDecode rest := by
  have hbound := byte.toNat_lt
  have hvalid : byte.toNat.isValidChar := .inl (by omega)
  have hchar : (Char.ofNat byte.toNat).toNat = byte.toNat := by
    rw [Char.ofNat, dif_pos hvalid]
    rfl
  unfold quoteByte
  simp only []
  split
  · next hsafe =>
    have hplus := isSafe_ne hsafe (by decide : isSafe '+' = false)
    have hpercent := isSafe_ne hsafe (by decide : isSafe '%' = false)
    simp only [List.map_singleton, plusToSpace, if_neg hplus,
      List.singleton_append]
    rw [percentDecode_of_isAscii (isAscii_of_isSafe hsafe) hpercent, hchar,
      UInt8.ofNat_toNat]
  · split
    · next hspace =>
      rw [hspace] at hchar
      have hbyte : byte = 32 := UInt8.toNat_inj.mp hchar.symm
      subst hbyte
      exact percentDecode_of_isAscii (by decide) (by decide) rest
    · have hlow := hexDigit_hexChar (by omega : byte.toNat % 16 < 16)
      have hhigh := hexDigit_hexChar (by omega : byte.toNat / 16 < 16)
      have hplus : ∀ digit, digit < 16 →
          plusToSpace (hexChar digit) = hexChar digit := by
        intro digit hdigit
        exact if_neg (isSafe_ne (hexChar_isSafe hdigit) (by decide))
      have hpercent : plusToSpace '%' = '%' := by decide
      simp only [List.map_cons, List.map_nil, hpercent,
        hplus _ (by omega : byte.toNat % 16 < 16),
        hplus _ (by omega : byte.toNat / 16 < 16), List.cons_append,
        List.nil_append, Uri.percentDecode, hlow, hhigh]
      rw [Nat.div_add_mod, UInt8.ofNat_toNat]

theorem percentDecode_quotePlus (text : List Char) :
    Uri.percentDecode ((quotePlus text).map plusToSpace) = Uri.utf8 text := by
  rw [quotePlus]
  induction Uri.utf8 text with
  | nil => rfl
  | cons byte bytes ih =>
      rw [List.flatMap_cons, List.map_append, percentDecode_quoteByte, ih]

theorem unquote_of_isAscii {text : List Char}
    (htext : ∀ c ∈ text, isAscii c = true) :
    unquote text = decodeUtf8 (Uri.percentDecode text) := by
  cases text with
  | nil => rfl
  | cons c text =>
      have hchain : (c :: text).IsChain fun c d =>
          decide (isAscii c = isAscii d) = true := by
        apply List.Pairwise.isChain
        apply List.pairwise_of_forall_mem_list
        intro c hc d hd
        rw [htext c hc, htext d hd]
        rfl
      rw [unquote, List.splitBy_of_isChain (List.cons_ne_nil _ _) hchain,
        List.flatMap_singleton, if_pos (List.all_eq_true.mpr htext)]

theorem unquotePlus_quotePlus (text : List Char) :
    unquotePlus (quotePlus text) = text := by
  rw [unquotePlus, unquote_of_isAscii, percentDecode_quotePlus,
    decodeUtf8_utf8]
  intro c hc
  obtain ⟨d, hd, rfl⟩ := List.mem_map.mp hc
  have hquoted := isAscii_of_isQuoted (quotePlus_isQuoted text d hd)
  unfold plusToSpace
  split
  · decide
  · exact hquoted

/-! ## Queries -/

theorem parseItem_renderItem (item : List Char × List Char) :
    parseItem (renderItem item) = item := by
  have hname : Uri.Free ['='] (quotePlus item.1) :=
    quotePlus_free (by decide) item.1
  have hmark : ∀ c ∈ ('=' :: quotePlus item.2).head?, c ∈ ['='] := by simp
  rw [parseItem, renderItem, Uri.takeWhile_free hname hmark,
    Uri.dropWhile_free hname hmark, List.drop_one, List.tail_cons,
    unquotePlus_quotePlus, unquotePlus_quotePlus]

theorem renderItem_free {stops : List Char}
    (hstops : stops.any isQuoted = false) (hmark : '=' ∉ stops)
    (item : List Char × List Char) : Uri.Free stops (renderItem item) := by
  rw [renderItem, Uri.free_append_iff, Uri.free_cons_iff]
  exact ⟨quotePlus_free hstops item.1, hmark, quotePlus_free hstops item.2⟩

theorem urlencode_free {stops : List Char}
    (hstops : stops.any isQuoted = false) (hmark : '=' ∉ stops)
    (hand : '&' ∉ stops) (items : List (List Char × List Char)) :
    Uri.Free stops (urlencode items) := by
  induction items with
  | nil => simp [urlencode, Uri.Free]
  | cons item items ih =>
      have hitem := renderItem_free hstops hmark item
      cases items with
      | nil =>
          rw [urlencode, List.map_singleton, List.intercalate_singleton]
          exact hitem
      | cons other items =>
          have hmore : urlencode (item :: other :: items) =
              renderItem item ++ '&' :: urlencode (other :: items) := by
            simp [urlencode, List.intercalate_cons_cons]
          rw [hmore, Uri.free_append_iff, Uri.free_cons_iff]
          exact ⟨hitem, hand, ih⟩

/-- What is written as a query is read from it again. -/
theorem parseQsl_urlencode (items : List (List Char × List Char)) :
    parseQsl (urlencode items) = items := by
  cases items with
  | nil => rfl
  | cons item items =>
      have hpieces : (urlencode (item :: items)).splitOn '&' =
          (item :: items).map renderItem := by
        apply List.splitOn_intercalate
        · intro piece hpiece hmem
          obtain ⟨written, -, rfl⟩ := List.mem_map.mp hpiece
          have hfree : Uri.Free ['&'] (renderItem written) :=
            renderItem_free (by decide) (by decide) written
          exact hfree '&' hmem (by simp)
        · simp
      have hfilter : ((item :: items).map renderItem).filter (· ≠ []) =
          (item :: items).map renderItem := by
        rw [List.filter_eq_self]
        intro piece hpiece
        obtain ⟨written, -, rfl⟩ := List.mem_map.mp hpiece
        simp [renderItem]
      have hid : parseItem ∘ renderItem = id := funext parseItem_renderItem
      rw [parseQsl, hpieces, hfilter, List.map_map, hid, List.map_id]

theorem valuesAt_parseQs (name query : List Char) :
    Dictionary.valuesAt name (parseQs query) =
      let values := Dictionary.valuesAt name (parseQsl query)
      if values = [] then [] else [values] := by
  have hfoldl : ∀ values gathered : List (List Char),
      values.foldl (fun gathered value => gathered ++ [value]) gathered =
        gathered ++ values := by
    intro values
    induction values with
    | nil => simp
    | cons value values ih =>
        intro gathered
        rw [List.foldl_cons, ih, List.append_assoc, List.singleton_append]
  rw [parseQs, Dictionary.valuesAt_collect]
  cases Dictionary.valuesAt name (parseQsl query) with
  | nil => rfl
  | cons value values =>
      simp [Dictionary.accumulate, hfoldl]

end RateLimitedGateway.Foundation.FormQuery
