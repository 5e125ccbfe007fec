import Mathlib.Data.List.DropRight
import RateLimitedGateway.Foundation.FormQuery

/-!
# `urlparse` and `urlunparse`

How `urllib.parse` takes a URL apart and puts it together.  A network location
may be refused for its brackets, or for what it is under Unicode normalization:
that check is a parameter.
-/

namespace RateLimitedGateway.Foundation.Urlparse

open RateLimitedGateway.Foundation

structure ParseResult where
  scheme : List Char
  netloc : List Char
  path : List Char
  params : List Char
  query : List Char
  fragment : List Char
  deriving DecidableEq, Repr

def unsafeChars : List Char := ['\t', '\r', '\n']

def isControlOrSpace (c : Char) : Bool := c.toNat ≤ 0x20

def usesNetloc : List (List Char) :=
  ["", "ftp", "http", "gopher", "nntp", "telnet", "imap", "wais", "file", "mms",
    "https", "shttp", "snews", "prospero", "rtsp", "rtsps", "rtspu", "rsync",
    "svn", "svn+ssh", "sftp", "nfs", "git", "git+ssh", "ws", "wss",
    "itms-services"].map String.toList

def usesParams : List (List Char) :=
  ["", "ftp", "hdl", "prospero", "http", "imap", "https", "shttp", "rtsp",
    "rtsps", "rtspu", "sip", "sips", "mms", "sftp", "tel"].map String.toList

def isSchemeChar (c : Char) : Bool := c.isAlphanum || c ∈ ['+', '-', '.']

def splitScheme (url : List Char) : List Char × List Char :=
  let name := url.takeWhile (· ∉ [':'])
  match url.dropWhile (· ∉ [':']) with
  | ':' :: rest =>
      if name.head?.any Char.isAlpha && name.all isSchemeChar then
        (name.map Char.toLower, rest)
      else ([], url)
  | _ => ([], url)

def splitNetloc : List Char → List Char × List Char
  | '/' :: '/' :: rest =>
      (rest.takeWhile (· ∉ ['/', '?', '#']),
        rest.dropWhile (· ∉ ['/', '?', '#']))
  | url => ([], url)

def splitAt (mark : Char) (url : List Char) : List Char × List Char :=
  (url.takeWhile (· ∉ [mark]), (url.dropWhile (· ∉ [mark])).drop 1)

def splitParams (url : List Char) : List Char × List Char :=
  let (segment, params) := splitAt ';' (url.rtakeWhile (· ≠ '/'))
  (url.rdropWhile (· ≠ '/') ++ segment, params)

/-- `none` is a `ValueError`. -/
def urlparse (checkNetloc : List Char → Bool) (url : List Char) :
    Option ParseResult :=
  let url := (url.dropWhile isControlOrSpace).filter (· ∉ unsafeChars)
  let (scheme, url) := splitScheme url
  let (netloc, url) := splitNetloc url
  let (url, fragment) := splitAt '#' url
  let (url, query) := splitAt '?' url
  let (path, params) :=
    if usesParams.contains scheme then splitParams url else (url, [])
  if checkNetloc netloc then
    some { scheme := scheme, netloc := netloc, path := path, params := params
           query := query, fragment := fragment }
  else none

def marked (mark : Char) (part : List Char) : List Char :=
  if part = [] then [] else mark :: part

def urlunparse (parts : ParseResult) : List Char :=
  let url := parts.path ++ marked ';' parts.params
  let rooted :=
    if url ≠ [] ∧ url.head? ≠ some '/' then '/' :: url else url
  let located :=
    if parts.netloc ≠ [] ∨ (parts.scheme ≠ [] ∧
        usesNetloc.contains parts.scheme ∧ ¬ ['/', '/'] <+: url) then
      '/' :: '/' :: (parts.netloc ++ rooted)
    else url
  let absolute :=
    if parts.scheme ≠ [] then parts.scheme ++ ':' :: located else located
  absolute ++ marked '?' parts.query ++ marked '#' parts.fragment

/-! ## What is split off comes back -/

theorem marked_head (mark : Char) (part : List Char) :
    ∀ c ∈ (marked mark part).head?, c = mark := by
  intro c hc
  unfold marked at hc
  split at hc
  · cases hc
  · exact (Option.mem_some_iff.mp hc).symm

theorem marked_free {stops part : List Char} {mark : Char}
    (hmark : mark ∉ stops) (hpart : Uri.Free stops part) :
    Uri.Free stops (marked mark part) := by
  unfold marked
  split
  · exact List.forall_mem_nil _
  · exact Uri.free_cons_iff.mpr ⟨hmark, hpart⟩

theorem splitAt_free (mark : Char) (url : List Char) :
    Uri.Free [mark] (splitAt mark url).1 := by
  intro c hc
  simpa using List.mem_takeWhile_imp hc

theorem splitAt_fst_isPrefix (mark : Char) (url : List Char) :
    (splitAt mark url).1 <+: url :=
  List.takeWhile_prefix _

theorem splitAt_snd_subset (mark : Char) (url : List Char) :
    (splitAt mark url).2 ⊆ url := by
  intro c hc
  exact (List.dropWhile_suffix _).subset (List.mem_of_mem_drop hc)

theorem splitAt_splitAt_free (mark other : Char) (url : List Char) :
    Uri.Free [mark, other] (splitAt mark (splitAt other url).1).1 :=
  Uri.free_cons_stops_iff.mpr ⟨splitAt_free mark _,
    (splitAt_free other url).of_subset (splitAt_fst_isPrefix mark _).subset⟩

theorem splitAt_marked {mark : Char} {text : List Char}
    (htext : Uri.Free [mark] text) (part : List Char) :
    splitAt mark (text ++ marked mark part) = (text, part) := by
  have hhead : ∀ c ∈ (marked mark part).head?, c ∈ [mark] := by
    intro c hc
    rw [marked_head mark part c hc]
    exact List.mem_singleton_self _
  rw [splitAt, Uri.takeWhile_free htext hhead, Uri.dropWhile_free htext hhead]
  unfold marked
  split
  · next hempty => rw [hempty, List.drop_nil]
  · rfl

/-! ## Parameters of a path -/

theorem rdropWhile_append_of_pos {p : Char → Bool} {before : List Char}
    (hbefore : before.rdropWhile p = before) {after : List Char}
    (hafter : ∀ c ∈ after, p c = true) :
    (before ++ after).rdropWhile p = before := by
  induction after using List.reverseRecOn with
  | nil => rw [List.append_nil, hbefore]
  | append_singleton after c ih =>
      have hc : p c = true := hafter c (by simp)
      rw [← List.append_assoc, List.rdropWhile_concat_pos _ _ _ hc]
      exact ih fun d hd => hafter d (List.mem_append_left _ hd)

theorem rtakeWhile_append_of_pos {p : Char → Bool} {before : List Char}
    (hbefore : before.rtakeWhile p = []) {after : List Char}
    (hafter : ∀ c ∈ after, p c = true) :
    (before ++ after).rtakeWhile p = after := by
  induction after using List.reverseRecOn with
  | nil => rw [List.append_nil, hbefore]
  | append_singleton after c ih =>
      have hc : p c = true := hafter c (by simp)
      rw [← List.append_assoc, List.rtakeWhile_concat_pos _ _ _ hc,
        ih fun d hd => hafter d (List.mem_append_left _ hd)]

theorem splitParams_marked (url : List Char) :
    splitParams ((splitParams url).1 ++ marked ';' (splitParams url).2) =
      splitParams url := by
  let before := url.rdropWhile (· ≠ '/')
  let last := splitAt ';' (url.rtakeWhile (· ≠ '/'))
  have hbefore : before.rdropWhile (· ≠ '/') = before :=
    List.rdropWhile_idempotent _ _
  have hnone : before.rtakeWhile (· ≠ '/') = [] := by
    rw [List.rtakeWhile_eq_nil_iff]
    exact fun hne => List.rdropWhile_last_not _ _ hne
  have hslash : ∀ c ∈ last.1 ++ marked ';' last.2,
      decide (c ≠ '/') = true := by
    have hsegment : ∀ c ∈ url.rtakeWhile (· ≠ '/'),
        decide (c ≠ '/') = true := by
      intro c hc
      rw [List.rtakeWhile, List.mem_reverse] at hc
      simpa using List.mem_takeWhile_imp hc
    intro c hc
    rcases List.mem_append.mp hc with hfirst | hmarked
    · exact hsegment c ((splitAt_fst_isPrefix _ _).subset hfirst)
    · unfold marked at hmarked
      split at hmarked
      · cases hmarked
      · rcases List.mem_cons.mp hmarked with rfl | hparams
        · decide
        · exact hsegment c (splitAt_snd_subset _ _ hparams)
  have hlast := splitAt_marked (splitAt_free ';' (url.rtakeWhile (· ≠ '/')))
    last.2
  have hresult : splitParams url = (before ++ last.1, last.2) := rfl
  rw [hresult, List.append_assoc, splitParams,
    rtakeWhile_append_of_pos hnone hslash,
    rdropWhile_append_of_pos hbefore hslash, hlast]

/-! ## Schemes and network locations -/

structure IsScheme (scheme : List Char) : Prop where
  letter : scheme.head?.any Char.isAlpha = true
  chars : scheme.all isSchemeChar = true
  lowered : scheme.map Char.toLower = scheme

theorem toLower_of_isSchemeChar {c : Char} (hc : isSchemeChar c = true) :
    isSchemeChar c.toLower = true ∧ c.toLower.toLower = c.toLower ∧
      (c.isAlpha = true → c.toLower.isAlpha = true) := by
  have hall : ∀ n : Fin 128,
      isSchemeChar (Char.ofNat n) = true →
        isSchemeChar (Char.ofNat n).toLower = true ∧
          (Char.ofNat n).toLower.toLower = (Char.ofNat n).toLower ∧
          ((Char.ofNat n).isAlpha = true →
            (Char.ofNat n).toLower.isAlpha = true) := by
    decide +kernel
  have hascii : FormQuery.isAscii c = true := by
    rw [isSchemeChar, Bool.or_eq_true] at hc
    rcases hc with halphanum | hmark
    · exact FormQuery.isAscii_of_isAlphanum halphanum
    · simp only [List.mem_cons, List.not_mem_nil, or_false,
        decide_eq_true_eq] at hmark
      rcases hmark with rfl | rfl | rfl <;> decide
  have hself := hall ⟨c.toNat, of_decide_eq_true hascii⟩
  rw [Char.ofNat_toNat] at hself
  exact hself hc

theorem isScheme_map_toLower {name : List Char}
    (hletter : name.head?.any Char.isAlpha = true)
    (hchars : name.all isSchemeChar = true) :
    IsScheme (name.map Char.toLower) := by
  rw [List.all_eq_true] at hchars
  refine ⟨?_, ?_, ?_⟩
  · cases name with
    | nil => cases hletter
    | cons c name =>
        exact (toLower_of_isSchemeChar (hchars c (by simp))).2.2 hletter
  · rw [List.all_eq_true]
    intro c hc
    obtain ⟨d, hd, rfl⟩ := List.mem_map.mp hc
    exact (toLower_of_isSchemeChar (hchars d hd)).1
  · rw [List.map_map]
    apply List.map_congr_left
    intro c hc
    exact (toLower_of_isSchemeChar (hchars c hc)).2.1

theorem splitScheme_cases (url : List Char) :
    splitScheme url = ([], url) ∨
      ∃ scheme rest, splitScheme url = (scheme, rest) ∧ IsScheme scheme ∧
        rest ⊆ url := by
  unfold splitScheme
  simp only []
  split
  · next rest hrest =>
    split
    · next hname =>
      rw [Bool.and_eq_true] at hname
      refine .inr ⟨_, _, rfl, isScheme_map_toLower hname.1 hname.2, ?_⟩
      intro c hc
      apply (List.dropWhile_suffix fun c => decide (c ∉ [':'])).subset
      rw [hrest]
      exact List.mem_cons_of_mem _ hc
    · exact .inl rfl
  · exact .inl rfl

theorem isScheme_of_splitScheme (url : List Char) :
    (splitScheme url).1 = [] ∨ IsScheme (splitScheme url).1 := by
  rcases splitScheme_cases url with hnone | ⟨_, _, hsome, hscheme, -⟩
  · exact .inl (congrArg Prod.fst hnone)
  · rw [hsome]
    exact .inr hscheme

theorem splitScheme_snd_subset (url : List Char) :
    (splitScheme url).2 ⊆ url := by
  rcases splitScheme_cases url with hnone | ⟨_, _, hsome, -, hsubset⟩
  · rw [hnone]
    exact List.Subset.refl _
  · rw [hsome]
    exact hsubset

theorem splitScheme_append {scheme : List Char} (hscheme : IsScheme scheme)
    (rest : List Char) :
    splitScheme (scheme ++ ':' :: rest) = (scheme, rest) := by
  have hfree : Uri.Free [':'] scheme := by
    intro c hc hcolon
    have hchar := List.all_eq_true.mp hscheme.chars c hc
    rw [List.mem_singleton.mp hcolon] at hchar
    revert hchar
    decide
  have hcolon : ∀ c ∈ (':' :: rest).head?, c ∈ [':'] := by simp
  simp only [splitScheme, Uri.takeWhile_free hfree hcolon,
    Uri.dropWhile_free hfree hcolon, hscheme.letter, hscheme.chars,
    hscheme.lowered, Bool.and_self, if_true]

theorem splitScheme_slash (rest : List Char) :
    splitScheme ('/' :: rest) = ([], '/' :: rest) := by
  unfold splitScheme
  simp only []
  split
  · rw [List.takeWhile_cons_of_pos (by decide)]
    rfl
  · rfl

theorem splitNetloc_cases {url : List Char} (hne : (splitNetloc url).1 ≠ []) :
    ∃ netloc rest, splitNetloc url = (netloc, rest) ∧
      Uri.Free ['/', '?', '#'] netloc ∧
      (∀ c ∈ rest.head?, c ∈ ['/', '?', '#']) ∧ netloc ⊆ url ∧ rest ⊆ url := by
  unfold splitNetloc at hne ⊢
  split
  · next rest =>
    refine ⟨_, _, rfl, ?_, ?_, ?_, ?_⟩
    · intro c hc
      simpa using List.mem_takeWhile_imp hc
    · intro c hc
      have hstop := List.head?_dropWhile_not
        (fun c => decide (c ∉ ['/', '?', '#'])) rest
      rw [Option.mem_def.mp hc] at hstop
      exact not_not.mp (of_decide_eq_false hstop)
    · intro c hc
      have hmem := (List.takeWhile_prefix _).subset hc
      exact List.mem_cons_of_mem _ (List.mem_cons_of_mem _ hmem)
    · intro c hc
      have hmem := (List.dropWhile_suffix _).subset hc
      exact List.mem_cons_of_mem _ (List.mem_cons_of_mem _ hmem)
  · next hother =>
    split at hne
    · exact (hother _ rfl).elim
    · exact absurd rfl hne

theorem splitNetloc_append {netloc rest : List Char}
    (hnetloc : Uri.Free ['/', '?', '#'] netloc)
    (hrest : ∀ c ∈ rest.head?, c ∈ ['/', '?', '#']) :
    splitNetloc ('/' :: '/' :: (netloc ++ rest)) = (netloc, rest) := by
  rw [splitNetloc, Uri.takeWhile_free hnetloc hrest,
    Uri.dropWhile_free hnetloc hrest]

/-! ## A URL with a network location -/

/-- What `urlparse` makes of such a URL; nothing is said of the query. -/
structure Located (checkNetloc : List Char → Bool) (parts : ParseResult) :
    Prop where
  scheme : parts.scheme = [] ∨ IsScheme parts.scheme
  netloc_ne : parts.netloc ≠ []
  netloc_free : Uri.Free ['/', '?', '#'] parts.netloc
  checked : checkNetloc parts.netloc = true
  path_free : Uri.Free ['?', '#'] (parts.path ++ marked ';' parts.params)
  path_slash : ∀ c ∈ (parts.path ++ marked ';' parts.params).head?, c = '/'
  params_eq :
    (if usesParams.contains parts.scheme then
        splitParams (parts.path ++ marked ';' parts.params)
      else (parts.path ++ marked ';' parts.params, [])) =
        (parts.path, parts.params)
  clean : Uri.Free unsafeChars
    (parts.netloc ++ (parts.path ++ marked ';' parts.params) ++ parts.fragment)

theorem splitAt_marked_isPrefix (mark : Char) (url : List Char) :
    (splitAt mark url).1 ++ marked mark (splitAt mark url).2 <+: url := by
  have hsplit := List.takeWhile_append_dropWhile
    (p := fun c => decide (c ∉ [mark])) (l := url)
  rw [splitAt]
  cases hrest : url.dropWhile (· ∉ [mark]) with
  | nil =>
      rw [hrest] at hsplit
      rw [List.drop_nil, marked, if_pos rfl]
      exact ⟨[], (List.append_nil _).trans hsplit⟩
  | cons c rest =>
      have hstop := List.head?_dropWhile_not
        (fun c => decide (c ∉ [mark])) url
      rw [hrest] at hstop hsplit
      obtain rfl : c = mark := by simpa using hstop
      simp only [List.drop_one, List.tail_cons, marked]
      split
      · rw [List.append_nil]
        exact List.takeWhile_prefix _
      · exact ⟨[], (List.append_nil _).trans hsplit⟩

theorem splitParams_isPrefix (url : List Char) :
    (splitParams url).1 ++ marked ';' (splitParams url).2 <+: url := by
  have hlast := splitAt_marked_isPrefix ';' (url.rtakeWhile (· ≠ '/'))
  have hsplit := List.rdropWhile_append_rtakeWhile
    (p := fun c => decide (c ≠ '/')) (l := url)
  have hinitial := (List.prefix_append_right_inj
    (url.rdropWhile (· ≠ '/'))).mpr hlast
  rw [hsplit, ← List.append_assoc] at hinitial
  exact hinitial

theorem params_isPrefix (scheme url : List Char) :
    let parts :=
      if usesParams.contains scheme then splitParams url else (url, [])
    parts.1 ++ marked ';' parts.2 <+: url ∧
      (if usesParams.contains scheme then
          splitParams (parts.1 ++ marked ';' parts.2)
        else (parts.1 ++ marked ';' parts.2, [])) = parts := by
  split
  · exact ⟨splitParams_isPrefix url, splitParams_marked url⟩
  · simp [marked]

theorem located_of_urlparse {checkNetloc : List Char → Bool} {url : List Char}
    {parts : ParseResult} (hparse : urlparse checkNetloc url = some parts)
    (hne : parts.netloc ≠ []) : Located checkNetloc parts := by
  have hclean : Uri.Free unsafeChars
      ((url.dropWhile isControlOrSpace).filter (· ∉ unsafeChars)) := by
    intro c hc
    simpa using List.of_mem_filter hc
  unfold urlparse at hparse
  generalize (url.dropWhile isControlOrSpace).filter (· ∉ unsafeChars) = text
    at hparse hclean
  simp only [] at hparse
  split at hparse
  · next hchecked =>
    rw [Option.some_inj] at hparse
    subst hparse
    simp only [] at hne
    obtain ⟨netloc, rest, hnetloc, hfree, hrest, hnetlocSub, hrestSub⟩ :=
      splitNetloc_cases hne
    have hbehind : Uri.Free unsafeChars (splitScheme text).2 :=
      hclean.of_subset (splitScheme_snd_subset text)
    have hrestClean : Uri.Free unsafeChars rest := hbehind.of_subset hrestSub
    rw [hnetloc] at hchecked hne ⊢
    simp only [] at hchecked hne ⊢
    obtain ⟨hinitial, hagain⟩ := params_isPrefix (splitScheme text).1
      (splitAt '?' (splitAt '#' rest).1).1
    generalize (if usesParams.contains (splitScheme text).1 then
      splitParams (splitAt '?' (splitAt '#' rest).1).1
      else ((splitAt '?' (splitAt '#' rest).1).1, [])) = path
      at hinitial hagain ⊢
    have hpath := hinitial.trans
      ((splitAt_fst_isPrefix '?' _).trans (splitAt_fst_isPrefix '#' rest))
    have hpathFree : Uri.Free ['?', '#'] (path.1 ++ marked ';' path.2) :=
      (splitAt_splitAt_free '?' '#' rest).of_subset hinitial.subset
    refine ⟨isScheme_of_splitScheme text, hne, hfree, hchecked, hpathFree, ?_,
      hagain, ?_⟩
    · intro c hc
      have hhead : c ∈ rest.head? := by
        obtain ⟨after, rfl⟩ := hpath
        exact List.mem_head?_append_of_mem_head? hc
      have hfree' := hpathFree c (List.mem_of_mem_head? hc)
      have hstop := hrest c hhead
      simp only [List.mem_cons, List.not_mem_nil, or_false] at hstop hfree'
      exact hstop.resolve_right hfree'
    · rw [Uri.free_append_iff, Uri.free_append_iff]
      exact ⟨⟨hbehind.of_subset hnetlocSub,
        hrestClean.of_subset hpath.subset⟩,
        hrestClean.of_subset (splitAt_snd_subset '#' rest)⟩
  · cases hparse

theorem urlunparse_eq {checkNetloc : List Char → Bool} {parts : ParseResult}
    (hparts : Located checkNetloc parts) :
    urlunparse parts =
      (if parts.scheme = [] then [] else parts.scheme ++ [':']) ++
        '/' :: '/' :: (parts.netloc ++
          (parts.path ++ marked ';' parts.params ++
            marked '?' parts.query ++ marked '#' parts.fragment)) := by
  have hrooted : (if parts.path ++ marked ';' parts.params ≠ [] ∧
      (parts.path ++ marked ';' parts.params).head? ≠ some '/' then
        '/' :: (parts.path ++ marked ';' parts.params)
      else parts.path ++ marked ';' parts.params) =
        parts.path ++ marked ';' parts.params := by
    rw [if_neg]
    rintro ⟨hne, hhead⟩
    have hslash := hparts.path_slash
    cases hurl : parts.path ++ marked ';' parts.params with
    | nil => exact hne hurl
    | cons c rest =>
        rw [hurl] at hslash hhead
        exact hhead (congrArg some (hslash c rfl))
  simp only [urlunparse, hrooted, if_pos (Or.inl hparts.netloc_ne)]
  by_cases hscheme : parts.scheme = [] <;> simp [hscheme]

theorem isControlOrSpace_of_isAlpha {c : Char} (hc : c.isAlpha = true) :
    isControlOrSpace c = false := by
  unfold Char.isAlpha Char.isUpper Char.isLower at hc
  simp only [Bool.or_eq_true, Bool.and_eq_true, decide_eq_true_eq,
    UInt32.le_iff_toNat_le, ge_iff_le] at hc
  have hupper : 'A'.val.toNat = 65 := rfl
  have hlower : 'a'.val.toNat = 97 := rfl
  simp only [isControlOrSpace, decide_eq_false_iff_not, Char.toNat]
  omega

theorem dropWhile_urlunparse {checkNetloc : List Char → Bool}
    {parts : ParseResult} (hparts : Located checkNetloc parts) :
    (urlunparse parts).dropWhile isControlOrSpace = urlunparse parts := by
  rw [urlunparse_eq hparts]
  rcases hparts.scheme with hnone | hscheme
  · rw [if_pos hnone, List.nil_append]
    exact List.dropWhile_cons_of_neg (by decide)
  · cases hname : parts.scheme with
    | nil =>
        rw [if_pos rfl, List.nil_append]
        exact List.dropWhile_cons_of_neg (by decide)
    | cons c name =>
        have hletter := hscheme.letter
        rw [hname] at hletter
        rw [if_neg (List.cons_ne_nil _ _)]
        apply List.dropWhile_cons_of_neg
        rw [isControlOrSpace_of_isAlpha hletter]
        exact Bool.false_ne_true

theorem urlunparse_free {checkNetloc : List Char → Bool} {parts : ParseResult}
    (hparts : Located checkNetloc parts)
    (hquery : Uri.Free unsafeChars parts.query) :
    Uri.Free unsafeChars (urlunparse parts) := by
  have hclean := hparts.clean
  rw [Uri.free_append_iff, Uri.free_append_iff] at hclean
  obtain ⟨⟨hnetloc, hpath⟩, hfragment⟩ := hclean
  have hscheme : Uri.Free unsafeChars parts.scheme := by
    intro c hc hunsafe
    rcases hparts.scheme with hnone | hscheme
    · rw [hnone] at hc
      cases hc
    · have hchar := List.all_eq_true.mp hscheme.chars c hc
      have hnone : unsafeChars.any isSchemeChar = false := by decide
      exact absurd hchar (List.any_eq_false.mp hnone c hunsafe)
  rw [urlunparse_eq hparts]
  simp only [Uri.free_append_iff, Uri.free_cons_iff]
  refine ⟨?_, by decide, by decide, hnetloc, ⟨Uri.free_append_iff.mp hpath,
    marked_free (by decide) hquery⟩, marked_free (by decide) hfragment⟩
  split
  · exact List.forall_mem_nil _
  · exact Uri.free_append_iff.mpr ⟨hscheme, by decide⟩

theorem splitScheme_urlunparse {checkNetloc : List Char → Bool}
    {parts : ParseResult} (hparts : Located checkNetloc parts) :
    splitScheme (urlunparse parts) =
      (parts.scheme, '/' :: '/' :: (parts.netloc ++
        (parts.path ++ marked ';' parts.params ++
          marked '?' parts.query ++ marked '#' parts.fragment))) := by
  rw [urlunparse_eq hparts]
  rcases hparts.scheme with hnone | hscheme
  · rw [if_pos hnone, List.nil_append, splitScheme_slash, hnone]
  · have hne : parts.scheme ≠ [] := by
      intro hnone
      have hletter := hscheme.letter
      rw [hnone] at hletter
      cases hletter
    rw [if_neg hne, List.append_assoc, List.singleton_append,
      splitScheme_append hscheme]

/-- With a query that ends in no other component, all parts come back. -/
theorem urlparse_urlunparse {checkNetloc : List Char → Bool}
    {parts : ParseResult} (hparts : Located checkNetloc parts)
    (hquery : Uri.Free ('#' :: unsafeChars) parts.query) :
    urlparse checkNetloc (urlunparse parts) = some parts := by
  have hqueryFree : Uri.Free ['#'] parts.query ∧
      Uri.Free unsafeChars parts.query := Uri.free_cons_stops_iff.mp hquery
  have hpathFree : Uri.Free ['?'] (parts.path ++ marked ';' parts.params) ∧
      Uri.Free ['#'] (parts.path ++ marked ';' parts.params) :=
    Uri.free_cons_stops_iff.mp hparts.path_free
  have hpathQuery : Uri.Free ['#']
      (parts.path ++ marked ';' parts.params ++ marked '?' parts.query) :=
    Uri.free_append_iff.mpr
      ⟨hpathFree.2, marked_free (by decide) hqueryFree.1⟩
  have hrest : ∀ c ∈ (parts.path ++ marked ';' parts.params ++
      marked '?' parts.query ++ marked '#' parts.fragment).head?,
      c ∈ ['/', '?', '#'] := by
    intro c hc
    rw [List.head?_append, List.head?_append, Option.mem_def,
      Option.or_eq_some_iff, Option.or_eq_some_iff] at hc
    rcases hc with (hpath | ⟨-, hquestion⟩) | ⟨-, hhash⟩
    · simp [hparts.path_slash c hpath]
    · simp [marked_head _ _ c hquestion]
    · simp [marked_head _ _ c hhash]
  have hclean : (urlunparse parts).filter (· ∉ unsafeChars) =
      urlunparse parts := by
    rw [List.filter_eq_self]
    intro c hc
    exact decide_eq_true (urlunparse_free hparts hqueryFree.2 c hc)
  simp only [urlparse, dropWhile_urlunparse hparts, hclean,
    splitScheme_urlunparse hparts, splitNetloc_append hparts.netloc_free hrest,
    splitAt_marked hpathQuery, splitAt_marked hpathFree.1, hparts.params_eq,
    hparts.checked, if_true]

end RateLimitedGateway.Foundation.Urlparse
