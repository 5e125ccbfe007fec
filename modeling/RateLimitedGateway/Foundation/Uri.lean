import Mathlib.Data.List.Basic
import Mathlib.Data.List.Induction
import Mathlib.Data.List.TakeWhile

/-!
# Uniform resource identifiers

The generic syntax of RFC 3986: how a reference is split into its components,
what its percent-encoded octets are, and how dot segments are removed from a
path.
-/

namespace RateLimitedGateway.Foundation.Uri

/-! ## Components -/

structure Parts where
  scheme : Option (List Char)
  authority : Option (List Char)
  path : List Char
  query : Option (List Char)
  fragment : Option (List Char)
  deriving DecidableEq, Repr

def splitScheme (text : List Char) : Option (List Char) × List Char :=
  match text.dropWhile (· ∉ [':', '/', '?', '#']) with
  | ':' :: rest =>
      let name := text.takeWhile (· ∉ [':', '/', '?', '#'])
      if name = [] then (none, text) else (some name, rest)
  | _ => (none, text)

def splitAuthority : List Char → Option (List Char) × List Char
  | '/' :: '/' :: rest =>
      (some (rest.takeWhile (· ∉ ['/', '?', '#'])),
        rest.dropWhile (· ∉ ['/', '?', '#']))
  | text => (none, text)

def pathOf (text : List Char) : List Char :=
  text.takeWhile (· ∉ ['?', '#'])

def queryOf (text : List Char) : Option (List Char) :=
  match text.dropWhile (· ∉ ['?', '#']) with
  | '?' :: rest => some (rest.takeWhile (· ≠ '#'))
  | _ => none

def fragmentOf (text : List Char) : Option (List Char) :=
  match text.dropWhile (· ≠ '#') with
  | '#' :: rest => some rest
  | _ => none

/-- The regular expression of the RFC's appendix B. -/
def split (text : List Char) : Parts :=
  let (scheme, text) := splitScheme text
  let (authority, text) := splitAuthority text
  { scheme := scheme, authority := authority, path := pathOf text
    query := queryOf text, fragment := fragmentOf text }

def Free (stops text : List Char) : Prop := ∀ c ∈ text, c ∉ stops

instance (stops text : List Char) : Decidable (Free stops text) :=
  decidable_of_iff (text.all (· ∉ stops) = true) (by simp [Free])

theorem free_append_iff {stops text rest : List Char} :
    Free stops (text ++ rest) ↔ Free stops text ∧ Free stops rest :=
  List.forall_mem_append

theorem free_cons_iff {stops text : List Char} {c : Char} :
    Free stops (c :: text) ↔ c ∉ stops ∧ Free stops text :=
  List.forall_mem_cons

theorem free_cons_stops_iff {mark : Char} {stops text : List Char} :
    Free (mark :: stops) text ↔ Free [mark] text ∧ Free stops text := by
  simp [Free, forall_and]

theorem Free.of_subset {stops text part : List Char} (htext : Free stops text)
    (hpart : part ⊆ text) : Free stops part :=
  fun c hc => htext c (hpart hc)

theorem takeWhile_free {stops text rest : List Char} (htext : Free stops text)
    (hrest : ∀ c ∈ rest.head?, c ∈ stops) :
    (text ++ rest).takeWhile (· ∉ stops) = text := by
  have hnone : rest.takeWhile (· ∉ stops) = [] := by
    cases rest with
    | nil => rfl
    | cons c rest => simp [hrest c rfl]
  rw [List.takeWhile_append_of_pos (by simpa [Free] using htext), hnone,
    List.append_nil]

theorem dropWhile_free {stops text rest : List Char} (htext : Free stops text)
    (hrest : ∀ c ∈ rest.head?, c ∈ stops) :
    (text ++ rest).dropWhile (· ∉ stops) = rest := by
  rw [List.dropWhile_append_of_pos (by simpa [Free] using htext)]
  cases rest with
  | nil => rfl
  | cons c rest => simp [hrest c rfl]

theorem split_absolute {scheme authority rest : List Char}
    (hscheme : Free [':', '/', '?', '#'] scheme) (hne : scheme ≠ [])
    (hauthority : Free ['/', '?', '#'] authority)
    (hrest : ∀ c ∈ rest.head?, c ∈ ['/', '?', '#']) :
    split (scheme ++ ':' :: '/' :: '/' :: (authority ++ rest)) =
      { scheme := some scheme, authority := some authority, path := pathOf rest
        query := queryOf rest, fragment := fragmentOf rest } := by
  have hcolon : ∀ c ∈ (':' :: '/' :: '/' :: (authority ++ rest)).head?,
      c ∈ [':', '/', '?', '#'] := by simp
  simp only [split, splitScheme, dropWhile_free hscheme hcolon,
    takeWhile_free hscheme hcolon, if_neg hne, splitAuthority,
    takeWhile_free hauthority hrest, dropWhile_free hauthority hrest]

theorem pathOf_isPrefix (text : List Char) : pathOf text <+: text :=
  List.takeWhile_prefix _

theorem pathOf_append_free {text rest : List Char}
    (htext : Free ['?', '#'] text) :
    pathOf (text ++ rest) = text ++ pathOf rest :=
  List.takeWhile_append_of_pos (by simpa [Free] using htext)

theorem queryOf_append_free {text rest : List Char}
    (htext : Free ['?', '#'] text) :
    queryOf (text ++ rest) = queryOf rest := by
  rw [queryOf, List.dropWhile_append_of_pos (by simpa [Free] using htext)]
  rfl

theorem pathOf_eq_self_iff {text : List Char} :
    pathOf text = text ↔ Free ['?', '#'] text := by
  rw [pathOf, List.takeWhile_eq_self_iff]
  simp [Free]

/-! ## Octets -/

def hexDigit (c : Char) : Option Nat :=
  if '0' ≤ c ∧ c ≤ '9' then some (c.toNat - 48)
  else if 'A' ≤ c ∧ c ≤ 'F' then some (c.toNat - 55)
  else if 'a' ≤ c ∧ c ≤ 'f' then some (c.toNat - 87)
  else none

def utf8 (text : List Char) : List UInt8 :=
  text.flatMap String.utf8EncodeChar

/-- The octets of a text; what is no escape stands for itself. -/
def percentDecode : List Char → List UInt8
  | [] => []
  | '%' :: high :: low :: rest =>
      match hexDigit high, hexDigit low with
      | some high, some low =>
          UInt8.ofNat (16 * high + low) :: percentDecode rest
      | _, _ =>
          String.utf8EncodeChar '%' ++ percentDecode (high :: low :: rest)
  | c :: rest => String.utf8EncodeChar c ++ percentDecode rest

def hasEscape : List Char → Bool
  | [] => false
  | '%' :: high :: low :: rest =>
      (hexDigit high).isSome && (hexDigit low).isSome ||
        hasEscape (high :: low :: rest)
  | _ :: rest => hasEscape rest

theorem utf8_cons (c : Char) (text : List Char) :
    utf8 (c :: text) = String.utf8EncodeChar c ++ utf8 text :=
  List.flatMap_cons

theorem utf8_append (text rest : List Char) :
    utf8 (text ++ rest) = utf8 text ++ utf8 rest :=
  List.flatMap_append

theorem utf8EncodeChar_length_pos (c : Char) :
    0 < (String.utf8EncodeChar c).length := by
  rw [String.length_utf8EncodeChar]
  exact c.utf8Size_pos

theorem hexDigit_eq_none_or {high low : Char}
    (hvalue : ∀ highValue lowValue, hexDigit high = some highValue →
      hexDigit low = some lowValue → False) :
    hexDigit high = none ∨ hexDigit low = none := by
  cases hhigh : hexDigit high with
  | none => exact .inl rfl
  | some highValue =>
      right
      rw [Option.eq_none_iff_forall_ne_some]
      intro lowValue hlow
      exact hvalue highValue lowValue hhigh hlow

theorem eq_nil_of_utf8 {text : List Char} (h : (utf8 text).length = 0) :
    text = [] := by
  cases text with
  | nil => rfl
  | cons c rest =>
      have hpos := utf8EncodeChar_length_pos c
      rw [utf8_cons, List.length_append] at h
      omega

theorem percentDecode_cons {c : Char} {rest : List Char}
    (hplain : ∀ high low after, c = '%' → rest = high :: low :: after →
      hexDigit high = none ∨ hexDigit low = none) :
    percentDecode (c :: rest) =
      String.utf8EncodeChar c ++ percentDecode rest := by
  by_cases hpair : ∃ high low after, c = '%' ∧ rest = high :: low :: after
  · obtain ⟨high, low, after, rfl, rfl⟩ := hpair
    rw [percentDecode]
    rcases hplain high low after rfl rfl with hhigh | hlow
    · simp only [hhigh]
    · cases hexDigit high <;> simp only [hlow]
  · rw [percentDecode]
    intro high low after hc hrest
    exact hpair ⟨high, low, after, hc, hrest⟩

theorem percentDecode_cases (text : List Char) :
    (hasEscape text = false ∧ percentDecode text = utf8 text) ∨
      (hasEscape text = true ∧
        (percentDecode text).length < (utf8 text).length) := by
  induction text using percentDecode.induct with
  | case1 => exact .inl ⟨rfl, rfl⟩
  | case2 high low rest highValue lowValue hlow hhigh ih =>
      right
      have hpercent := utf8EncodeChar_length_pos '%'
      have hfirst := utf8EncodeChar_length_pos high
      have hrest : (percentDecode rest).length ≤ (utf8 rest).length := by
        rcases ih with ⟨-, heq⟩ | ⟨-, hlt⟩
        · rw [heq]
        · exact hlt.le
      simp only [percentDecode, hasEscape, hhigh, hlow, utf8_cons,
        List.length_cons, List.length_append, Option.isSome_some, Bool.and_self,
        Bool.true_or, true_and]
      omega
  | case3 high low rest hvalue ih =>
      have hnone := hexDigit_eq_none_or hvalue
      have hpair :
          ((hexDigit high).isSome && (hexDigit low).isSome) = false := by
        rcases hnone with hhigh | hlow <;> simp [*]
      have hdecode : percentDecode ('%' :: high :: low :: rest) =
          String.utf8EncodeChar '%' ++ percentDecode (high :: low :: rest) := by
        apply percentDecode_cons
        rintro _ _ _ - ⟨rfl, rfl, rfl⟩
        exact hnone
      rw [hdecode, utf8_cons, hasEscape, hpair, Bool.false_or,
        List.length_append, List.length_append, List.append_cancel_left_eq,
        Nat.add_lt_add_iff_left]
      exact ih
  | case4 c rest hplain ih =>
      rw [percentDecode, hasEscape, utf8_cons, List.length_append,
        List.length_append, List.append_cancel_left_eq,
        Nat.add_lt_add_iff_left]
      · exact ih
      · exact hplain
      · exact hplain

theorem percentDecode_eq_utf8_iff {text : List Char} :
    percentDecode text = utf8 text ↔ hasEscape text = false := by
  rcases percentDecode_cases text with ⟨hplain, heq⟩ | ⟨hescape, hlt⟩
  · simp [hplain, heq]
  · have hne : percentDecode text ≠ utf8 text := fun heq => by
      rw [heq] at hlt
      exact lt_irrefl _ hlt
    simp [hescape, hne]

theorem percentDecode_length_le (text : List Char) :
    (percentDecode text).length ≤ (utf8 text).length := by
  rcases percentDecode_cases text with ⟨-, heq⟩ | ⟨-, hlt⟩
  · rw [heq]
  · exact hlt.le

theorem percentDecode_append {c : Char} (hc : hexDigit c = none)
    (hne : c ≠ '%') (text rest : List Char) :
    percentDecode (text ++ c :: rest) =
      percentDecode text ++
        (String.utf8EncodeChar c ++ percentDecode rest) := by
  have hnone : percentDecode (c :: rest) =
      String.utf8EncodeChar c ++ percentDecode rest :=
    percentDecode_cons fun _ _ _ h => absurd h hne
  induction text using percentDecode.induct with
  | case1 => exact hnone
  | case2 high low before highValue lowValue hlow hhigh ih =>
      simp only [List.cons_append, percentDecode, hhigh, hlow, ih]
  | case3 high low before hvalue ih =>
      have hdecode : ∀ after, percentDecode ('%' :: high :: low :: after) =
          String.utf8EncodeChar '%' ++
            percentDecode (high :: low :: after) := by
        intro after
        apply percentDecode_cons
        rintro _ _ _ - ⟨rfl, rfl, rfl⟩
        exact hexDigit_eq_none_or hvalue
      rw [List.cons_append, List.cons_append, List.cons_append, hdecode,
        hdecode, List.append_assoc, ← ih]
      rfl
  | case4 d before hplain ih =>
      have hdecode : percentDecode (d :: before) =
          String.utf8EncodeChar d ++ percentDecode before :=
        percentDecode_cons fun high low after hd hbefore =>
          (hplain high low after hd hbefore).elim
      rw [hdecode, List.append_assoc, ← ih]
      apply percentDecode_cons
      intro high low after hd hafter
      -- at most one character of `before` follows the percent sign
      match before with
      | [] =>
          left
          obtain ⟨rfl, -⟩ := List.cons.inj hafter
          exact hc
      | [first] =>
          right
          obtain ⟨-, hafter⟩ := List.cons.inj hafter
          obtain ⟨rfl, -⟩ := List.cons.inj hafter
          exact hc
      | first :: second :: after =>
          exact (hplain first second after hd rfl).elim

/-! ## Dot segments -/

def dropLastSegment (output : List Char) : List Char :=
  ((output.reverse.dropWhile (· ≠ '/')).drop 1).reverse

/-- The steps of the RFC's section 5.2.4, on an input and an output buffer. -/
def removeDots : Nat → List Char → List Char → List Char
  | 0, _, output => output
  | _ + 1, [], output => output
  | fuel + 1, '.' :: '.' :: '/' :: rest, output => removeDots fuel rest output
  | fuel + 1, '.' :: '/' :: rest, output => removeDots fuel rest output
  | fuel + 1, '/' :: '.' :: '/' :: rest, output =>
      removeDots fuel ('/' :: rest) output
  | fuel + 1, ['/', '.'], output => removeDots fuel ['/'] output
  | fuel + 1, '/' :: '.' :: '.' :: '/' :: rest, output =>
      removeDots fuel ('/' :: rest) (dropLastSegment output)
  | fuel + 1, ['/', '.', '.'], output =>
      removeDots fuel ['/'] (dropLastSegment output)
  | fuel + 1, ['.', '.'], output => removeDots fuel [] output
  | fuel + 1, ['.'], output => removeDots fuel [] output
  | fuel + 1, c :: rest, output =>
      removeDots fuel (rest.dropWhile (· ≠ '/'))
        (output ++ c :: rest.takeWhile (· ≠ '/'))

/-- Each step shortens the input, so the input's length is enough of them. -/
def removeDotSegments (path : List Char) : List Char :=
  removeDots path.length path []

def render (segments : List (List Char)) : List Char :=
  segments.flatMap ('/' :: ·)

def enter (stack : List (List Char)) (segment : List Char) :
    List (List Char) :=
  if segment = ['.'] then stack
  else if segment = ['.', '.'] then stack.dropLast
  else stack ++ [segment]

def resolve (stack : List (List Char)) : List (List Char) → List (List Char)
  | [] => stack
  | [segment] =>
      if segment ∈ [['.'], ['.', '.']] then enter stack segment ++ [[]]
      else enter stack segment
  | segment :: next :: rest => resolve (enter stack segment) (next :: rest)

theorem render_append (segments rest : List (List Char)) :
    render (segments ++ rest) = render segments ++ render rest :=
  List.flatMap_append

theorem render_cons (segment : List Char) (rest : List (List Char)) :
    render (segment :: rest) = '/' :: (segment ++ render rest) := rfl

theorem dropLastSegment_render {stack : List (List Char)}
    (hstack : ∀ segment ∈ stack, Free ['/'] segment) :
    dropLastSegment (render stack) = render stack.dropLast := by
  induction stack using List.reverseRecOn with
  | nil => rfl
  | append_singleton stack segment ih =>
      have hlast : ∀ c ∈ segment.reverse, decide (c ≠ '/') = true := by
        intro c hc
        simpa using hstack segment (by simp) c (List.mem_reverse.mp hc)
      rw [List.dropLast_concat, render_append, dropLastSegment]
      simp only [render, List.flatMap_cons, List.flatMap_nil, List.append_nil,
        List.reverse_append, List.reverse_cons, List.append_assoc]
      rw [List.dropWhile_append_of_pos hlast]
      simp

theorem removeDots_segment {text : List Char}
    (hdot : text.takeWhile (· ≠ '/') ≠ ['.'])
    (hdots : text.takeWhile (· ≠ '/') ≠ ['.', '.']) (fuel : Nat)
    (output : List Char) :
    removeDots (fuel + 1) ('/' :: text) output =
      removeDots fuel (text.dropWhile (· ≠ '/'))
        (output ++ '/' :: text.takeWhile (· ≠ '/')) := by
  rw [removeDots]
  all_goals
    intros
    subst_vars
    simp_all

theorem takeWhile_segment {segment : List Char} (hsegment : Free ['/'] segment)
    (rest : List (List Char)) :
    (segment ++ render rest).takeWhile (· ≠ '/') = segment ∧
      (segment ++ render rest).dropWhile (· ≠ '/') = render rest := by
  have hrest : ∀ c ∈ (render rest).head?, c ∈ ['/'] := by
    cases rest <;> simp [render]
  have hfree := takeWhile_free hsegment hrest
  have hleft := dropWhile_free hsegment hrest
  simp only [List.mem_singleton] at hfree hleft
  exact ⟨hfree, hleft⟩

theorem enter_free {stack : List (List Char)} {segment : List Char}
    (hstack : ∀ other ∈ stack, Free ['/'] other)
    (hsegment : Free ['/'] segment) :
    ∀ other ∈ enter stack segment, Free ['/'] other := by
  intro other hother
  unfold enter at hother
  split at hother
  · exact hstack other hother
  · split at hother
    · exact hstack other (List.dropLast_subset _ hother)
    · rcases List.mem_append.mp hother with hother | hother
      · exact hstack other hother
      · rwa [List.mem_singleton.mp hother]

theorem removeDots_enter {segment : List Char} (hsegment : Free ['/'] segment)
    {stack : List (List Char)} (hstack : ∀ other ∈ stack, Free ['/'] other)
    (next : List Char) (rest : List (List Char)) (fuel : Nat) :
    removeDots (fuel + 1) (render (segment :: next :: rest)) (render stack) =
      removeDots fuel (render (next :: rest))
        (render (enter stack segment)) := by
  by_cases hdot : segment = ['.']
  · subst hdot
    rfl
  · by_cases hdots : segment = ['.', '.']
    · subst hdots
      rw [enter, if_neg hdot, if_pos rfl, ← dropLastSegment_render hstack]
      rfl
    · obtain ⟨htake, hdrop⟩ := takeWhile_segment hsegment (next :: rest)
      rw [render_cons, removeDots_segment, htake, hdrop, enter, if_neg hdot,
        if_neg hdots, render_append]
      · simp [render]
      · rwa [htake]
      · rwa [htake]

theorem removeDots_nil (fuel : Nat) (output : List Char) :
    removeDots fuel [] output = output := by
  cases fuel <;> rfl

theorem removeDots_slash (fuel : Nat) (stack : List (List Char)) :
    removeDots (fuel + 1) ['/'] (render stack) = render (stack ++ [[]]) := by
  rw [render_append]
  exact removeDots_nil fuel _

theorem removeDots_last {segment : List Char} (hsegment : Free ['/'] segment)
    {stack : List (List Char)} (hstack : ∀ other ∈ stack, Free ['/'] other)
    {fuel : Nat} (hfuel : (render [segment]).length ≤ fuel) :
    removeDots fuel (render [segment]) (render stack) =
      render (resolve stack [segment]) := by
  rw [render_cons, List.length_cons, List.length_append] at hfuel
  by_cases hdot : segment = ['.']
  · subst hdot
    obtain ⟨fuel, rfl⟩ : ∃ less, fuel = less + 2 :=
      ⟨fuel - 2, by simp at hfuel; omega⟩
    exact removeDots_slash fuel stack
  · by_cases hdots : segment = ['.', '.']
    · subst hdots
      obtain ⟨fuel, rfl⟩ : ∃ less, fuel = less + 2 :=
        ⟨fuel - 2, by simp at hfuel; omega⟩
      have hstep : removeDots (fuel + 2) (render [['.', '.']]) (render stack) =
          removeDots (fuel + 1) ['/'] (dropLastSegment (render stack)) := rfl
      rw [hstep, dropLastSegment_render hstack]
      exact removeDots_slash fuel stack.dropLast
    · obtain ⟨fuel, rfl⟩ : ∃ less, fuel = less + 1 := ⟨fuel - 1, by omega⟩
      obtain ⟨htake, hdrop⟩ := takeWhile_segment hsegment []
      have hresolve : resolve stack [segment] = stack ++ [segment] := by
        simp [resolve, enter, hdot, hdots]
      rw [render_cons, removeDots_segment, htake, hdrop, hresolve,
        render_append]
      · rw [render_cons, render]
        simp [removeDots_nil]
      · rwa [htake]
      · rwa [htake]

/-- On the segments of an absolute path, dot segments work like a stack. -/
theorem removeDots_render {segments : List (List Char)}
    (hsegments : ∀ segment ∈ segments, Free ['/'] segment)
    {stack : List (List Char)} (hstack : ∀ other ∈ stack, Free ['/'] other)
    {fuel : Nat} (hfuel : (render segments).length ≤ fuel) :
    removeDots fuel (render segments) (render stack) =
      render (resolve stack segments) := by
  induction segments generalizing stack fuel with
  | nil => cases fuel <;> rfl
  | cons segment rest ih =>
      have hsegment := hsegments segment (by simp)
      have hrest : ∀ other ∈ rest, Free ['/'] other := fun other hother =>
        hsegments other (by simp [hother])
      cases rest with
      | nil => exact removeDots_last hsegment hstack hfuel
      | cons next rest =>
          have hlength : (render (segment :: next :: rest)).length =
              segment.length + (render (next :: rest)).length + 1 := by
            rw [render_cons, List.length_cons, List.length_append]
          obtain ⟨fuel, rfl⟩ : ∃ less, fuel = less + 1 :=
            ⟨fuel - 1, by omega⟩
          rw [removeDots_enter hsegment hstack, resolve]
          exact ih hrest (enter_free hstack hsegment) (by omega)

theorem removeDotSegments_render {segments : List (List Char)}
    (hsegments : ∀ segment ∈ segments, Free ['/'] segment) :
    removeDotSegments (render segments) = render (resolve [] segments) := by
  have hnone : ∀ other ∈ ([] : List (List Char)), Free ['/'] other := by simp
  exact removeDots_render hsegments hnone le_rfl

/-! ## Segments of a text -/

def segments : List Char → List (List Char)
  | [] => [[]]
  | c :: rest =>
      if c = '/' then [] :: segments rest
      else
        match segments rest with
        | [] => [[c]]
        | segment :: others => (c :: segment) :: others

theorem segments_ne_nil (text : List Char) : segments text ≠ [] := by
  cases text with
  | nil => simp [segments]
  | cons c rest =>
      rw [segments]
      split
      · simp
      · split <;> simp

theorem render_segments (text : List Char) :
    render (segments text) = '/' :: text := by
  induction text with
  | nil => rfl
  | cons c rest ih =>
      rw [segments]
      split
      · next hc =>
        rw [render_cons, ih, hc]
        rfl
      · cases hsegments : segments rest with
        | nil => exact absurd hsegments (segments_ne_nil rest)
        | cons segment others =>
            rw [hsegments, render_cons] at ih
            rw [render_cons, List.cons_append, (List.cons.inj ih).2]

theorem segments_free (text : List Char) :
    ∀ segment ∈ segments text, Free ['/'] segment := by
  induction text with
  | nil => simp [segments, Free]
  | cons c rest ih =>
      rw [segments]
      split
      · simpa [Free] using ih
      · next hc =>
        split
        · simp [Free, hc]
        · next segment others hsegments =>
          rw [hsegments] at ih
          simp only [List.mem_cons, forall_eq_or_imp] at ih ⊢
          refine ⟨?_, ih.2⟩
          intro d hd
          rcases List.mem_cons.mp hd with rfl | hd
          · simpa using hc
          · exact ih.1 d hd

theorem segments_append_slash {segment : List Char}
    (hsegment : Free ['/'] segment) (text : List Char) :
    segments (segment ++ '/' :: text) = segment :: segments text := by
  induction segment with
  | nil => simp [segments]
  | cons c segment ih =>
      have hc : c ≠ '/' := by simpa using hsegment c (by simp)
      have hrest : Free ['/'] segment := fun d hd =>
        hsegment d (List.mem_cons_of_mem c hd)
      rw [List.cons_append, segments, if_neg hc, ih hrest]

theorem segments_of_free {segment : List Char}
    (hsegment : Free ['/'] segment) : segments segment = [segment] := by
  induction segment with
  | nil => rfl
  | cons c segment ih =>
      have hc : c ≠ '/' := by simpa using hsegment c (by simp)
      have hrest : Free ['/'] segment := fun d hd =>
        hsegment d (List.mem_cons_of_mem c hd)
      rw [segments, if_neg hc, ih hrest]

theorem segments_append_render {segment : List Char}
    (hsegment : Free ['/'] segment) {rest : List (List Char)}
    (hrest : ∀ other ∈ rest, Free ['/'] other) :
    segments (segment ++ render rest) = segment :: rest := by
  induction rest generalizing segment with
  | nil =>
      rw [render, List.flatMap_nil, List.append_nil]
      exact segments_of_free hsegment
  | cons other rest ih =>
      rw [render_cons, segments_append_slash hsegment,
        ih (hrest other (by simp)) fun o ho => hrest o (by simp [ho])]

theorem render_injective {first second : List (List Char)}
    (hfirst : ∀ segment ∈ first, Free ['/'] segment)
    (hsecond : ∀ segment ∈ second, Free ['/'] segment)
    (h : render first = render second) : first = second := by
  cases first with
  | nil =>
      cases second with
      | nil => rfl
      | cons segment rest => simp [render] at h
  | cons segment rest =>
      cases second with
      | nil => simp [render] at h
      | cons other others =>
          simp only [List.mem_cons, forall_eq_or_imp] at hfirst hsecond
          rw [render_cons, render_cons] at h
          rw [← segments_append_render hfirst.1 hfirst.2,
            (List.cons.inj h).2, segments_append_render hsecond.1 hsecond.2]

/-! ## Staying under a path -/

def Under (base path : List Char) : Prop :=
  path = base ∨ base ++ ['/'] <+: path

theorem under_render_iff {base path : List (List Char)}
    (hbase : ∀ segment ∈ base, Free ['/'] segment)
    (hpath : ∀ segment ∈ path, Free ['/'] segment) :
    Under (render base) (render path) ↔ base <+: path := by
  constructor
  · rintro (heq | ⟨rest, heq⟩)
    · exact (render_injective hbase hpath heq.symm).symm ▸ List.prefix_rfl
    · have hjoined : render (base ++ segments rest) = render path := by
        rw [render_append, render_segments, ← heq, List.append_assoc]
        rfl
      have hfree : ∀ segment ∈ base ++ segments rest, Free ['/'] segment := by
        intro segment hsegment
        rcases List.mem_append.mp hsegment with hmem | hmem
        · exact hbase segment hmem
        · exact segments_free rest segment hmem
      exact ⟨_, render_injective hfree hpath hjoined⟩
  · rintro ⟨rest, rfl⟩
    rw [render_append]
    cases rest with
    | nil => exact .inl (List.append_nil _)
    | cons segment rest =>
        right
        rw [render_cons]
        exact ⟨segment ++ render rest, by simp⟩

def trailing (path : List (List Char)) : List (List Char) :=
  if path.getLast? = some ['.'] ∨ path.getLast? = some ['.', '.'] then [[]]
  else []

theorem resolve_eq (stack path : List (List Char)) :
    resolve stack path = path.foldl enter stack ++ trailing path := by
  induction path generalizing stack with
  | nil => simp [resolve, trailing]
  | cons segment rest ih =>
      cases rest with
      | nil => by_cases hdot : segment = ['.'] <;>
          by_cases hdots : segment = ['.', '.'] <;>
          simp [resolve, trailing, hdot, hdots]
      | cons next rest =>
          rw [resolve, ih]
          simp only [List.foldl_cons, trailing, List.getLast?_cons_cons]

theorem trailing_append (path : List (List Char)) {rest : List (List Char)}
    (hne : rest ≠ []) : trailing (path ++ rest) = trailing rest := by
  rw [trailing, trailing, List.getLast?_append_of_ne_nil _ hne]

theorem resolve_append (stack path : List (List Char))
    {rest : List (List Char)} (hne : rest ≠ []) :
    resolve stack (path ++ rest) = resolve (path.foldl enter stack) rest := by
  rw [resolve_eq, resolve_eq, List.foldl_append, trailing_append path hne]

theorem foldl_enter_free {stack path : List (List Char)}
    (hstack : ∀ segment ∈ stack, Free ['/'] segment)
    (hpath : ∀ segment ∈ path, Free ['/'] segment) :
    ∀ segment ∈ path.foldl enter stack, Free ['/'] segment := by
  induction path generalizing stack with
  | nil => exact hstack
  | cons segment rest ih =>
      simp only [List.mem_cons, forall_eq_or_imp] at hpath
      exact ih (enter_free hstack hpath.1) hpath.2

theorem resolve_free {stack path : List (List Char)}
    (hstack : ∀ segment ∈ stack, Free ['/'] segment)
    (hpath : ∀ segment ∈ path, Free ['/'] segment) :
    ∀ segment ∈ resolve stack path, Free ['/'] segment := by
  rw [resolve_eq]
  intro segment hsegment
  rcases List.mem_append.mp hsegment with hmem | hmem
  · exact foldl_enter_free hstack hpath segment hmem
  · unfold trailing at hmem
    split at hmem
    · simp [List.mem_singleton.mp hmem, Free]
    · cases hmem

/-- How far a path climbs from where it starts, and what it then enters. -/
def descend (way : Nat × List (List Char)) (segment : List Char) :
    Nat × List (List Char) :=
  if segment = ['.'] then way
  else if segment = ['.', '.'] then
    if way.2 = [] then (way.1 + 1, []) else (way.1, way.2.dropLast)
  else (way.1, way.2 ++ [segment])

def wayOf (path : List (List Char)) : Nat × List (List Char) :=
  path.foldl descend (0, [])

def follow (stack : List (List Char)) (way : Nat × List (List Char)) :
    List (List Char) :=
  stack.take (stack.length - way.1) ++ way.2

theorem enter_follow (stack : List (List Char)) (way : Nat × List (List Char))
    (segment : List Char) :
    enter (follow stack way) segment = follow stack (descend way segment) := by
  obtain ⟨climbed, entered⟩ := way
  unfold enter descend follow
  split
  · rfl
  · split
    · split
      · next hnone =>
        simp only at hnone
        rw [hnone, List.append_nil, List.append_nil, List.dropLast_eq_take,
          List.take_take, List.length_take]
        congr 1
        omega
      · next hsome => exact List.dropLast_append_of_ne_nil hsome
    · exact List.append_assoc _ _ _

theorem foldl_enter (stack path : List (List Char)) :
    path.foldl enter stack = follow stack (wayOf path) := by
  have hstart : follow stack (0, []) = stack := by simp [follow]
  have hway : ∀ way, path.foldl enter (follow stack way) =
      follow stack (path.foldl descend way) := by
    induction path with
    | nil => intro way; rfl
    | cons segment rest ih =>
        intro way
        rw [List.foldl_cons, enter_follow, ih, List.foldl_cons]
  rw [wayOf, ← hway, hstart]

def Returns (stack path : List (List Char)) : Prop :=
  stack.drop (stack.length - (wayOf path).1) <+: (wayOf path).2 ++ trailing path

instance (stack path : List (List Char)) : Decidable (Returns stack path) :=
  inferInstanceAs (Decidable (_ <+: _))

theorem prefix_take_append_iff {α : Type*} {list rest : List α} (n : Nat) :
    list <+: list.take n ++ rest ↔ list.drop n <+: rest := by
  calc
    list <+: list.take n ++ rest ↔
        list.take n ++ list.drop n <+: list.take n ++ rest := by
      rw [List.take_append_drop]
    _ ↔ list.drop n <+: rest := List.prefix_append_right_inj _

theorem prefix_resolve_iff (stack path : List (List Char)) :
    stack <+: resolve stack path ↔ Returns stack path := by
  rw [resolve_eq, foldl_enter, follow, List.append_assoc]
  exact prefix_take_append_iff _

end RateLimitedGateway.Foundation.Uri
