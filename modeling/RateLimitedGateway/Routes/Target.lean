import RateLimitedGateway.Foundation.Uri
import RateLimitedGateway.Routes.Proxy
import RateLimitedGateway.Routes.Table

/-!
# The target that the upstream is asked for

The server decodes the path of a request once, the framework writes it into the
request's own URL and parses the query out of that, and the proxy writes both
into a new URL.  A character that ends a component or starts an escape is read
as such every time, although it may have been encoded by the client.
-/

namespace RateLimitedGateway.Routes

open RateLimitedGateway.Foundation RateLimitedGateway.Http

/-! ## The request's own URL -/

def unsafeChars : List Char := ['\t', '\r', '\n']

/-- `urlsplit`, for a text that begins with a scheme and an authority. -/
def urlsplit (text : List Char) : Url :=
  let parts := Uri.split (text.filter (· ∉ unsafeChars))
  { path := String.ofList parts.path
    query := String.ofList (parts.query.getD []) }

def queryPart (queryString : String) : List Char :=
  if queryString ≠ "" then '?' :: queryString.toList else []

def scopeScheme (secure : Bool) : List Char :=
  (if secure then "https" else "http").toList

/-- Starlette's `URL(scope)`, with the `Host` header for `netloc`. -/
def requestUrl (secure : Bool) (netloc : List Char)
    (scopePath queryString : String) : Url :=
  urlsplit (scopeScheme secure ++ ':' :: '/' :: '/' ::
    (netloc ++ (scopePath.toList ++ queryPart queryString)))

/-- What server and framework make of a target, with its path as it was sent. -/
structure Presented (request : Request) (rawPath : List Char)
    (queryString : String) : Prop where
  decoded : Uri.percentDecode rawPath = Uri.utf8 request.scopePath.toList
  assembled : ∃ secure netloc, Uri.Free ['/', '?', '#'] netloc ∧
    request.url? =
      some (requestUrl secure netloc request.scopePath queryString)

/-! ## The base URL -/

structure BaseUrl where
  scheme : List Char
  authority : List Char
  pathPrefix : List Char
  scheme_free : Uri.Free [':', '/', '?', '#'] scheme
  scheme_ne : scheme ≠ []
  authority_free : Uri.Free ['/', '?', '#'] authority
  authority_ne : authority ≠ []
  prefix_free : Uri.Free ['?', '#'] pathPrefix
  prefix_slash : ∀ c ∈ pathPrefix.head?, c = '/'

namespace BaseUrl

def text (base : BaseUrl) : String :=
  String.ofList
    (base.scheme ++ ':' :: '/' :: '/' :: (base.authority ++ base.pathPrefix))

def path (base : BaseUrl) : List Char := base.pathPrefix.rdropWhile (· = '/')

end BaseUrl

def Faithful (base : BaseUrl) (rawPath : List Char) (queryString : String)
    (url : String) : Prop :=
  let parts := Uri.split url.toList
  Uri.percentDecode parts.path =
      Uri.percentDecode base.path ++ Uri.percentDecode rawPath ∧
    parts.query.getD [] = queryString.toList

def Survives (scopePath queryString : String) : Prop :=
  (Uri.Free ['?', '#'] scopePath.toList ∧
      Uri.hasEscape scopePath.toList = false ∧
      scopePath.toList.getLast? ≠ some '\n') ∧
    Uri.Free ('#' :: unsafeChars) queryString.toList

instance (scopePath queryString : String) :
    Decidable (Survives scopePath queryString) :=
  inferInstanceAs (Decidable ((_ ∧ _) ∧ _))

/-! ## The URL that is passed on -/

theorem rdropWhile_append {text : List Char} {p : Char → Bool}
    (htext : text.rdropWhile p = text) (rest : List Char) :
    (text ++ rest).rdropWhile p = text ++ rest.rdropWhile p := by
  induction rest using List.reverseRecOn with
  | nil => rw [List.append_nil, htext, List.rdropWhile_nil, List.append_nil]
  | append_singleton rest c ih =>
      rw [← List.append_assoc]
      by_cases hc : p c = true
      · rw [List.rdropWhile_concat_pos _ _ _ hc, ih,
          List.rdropWhile_concat_pos _ _ _ hc]
      · rw [List.rdropWhile_concat_neg _ _ _ hc,
          List.rdropWhile_concat_neg _ _ _ hc, List.append_assoc]

namespace BaseUrl

variable (base : BaseUrl)

theorem rstripSlash_text : (rstripSlash base.text).toList =
    base.scheme ++ ':' :: '/' :: '/' :: (base.authority ++ base.path) := by
  have horigin : (base.scheme ++ ':' :: '/' :: '/' ::
      base.authority).rdropWhile (· = '/') =
        base.scheme ++ ':' :: '/' :: '/' :: base.authority := by
    obtain ⟨start, last, hsplit⟩ :=
      List.eq_nil_or_concat base.authority |>.resolve_left base.authority_ne
    have hlast : last ≠ '/' := by
      rintro rfl
      exact base.authority_free '/' (by simp [hsplit]) (by simp)
    rw [hsplit, List.concat_eq_append]
    have hjoin : base.scheme ++ ':' :: '/' :: '/' :: (start ++ [last]) =
        (base.scheme ++ ':' :: '/' :: '/' :: start) ++ [last] := by simp
    rw [hjoin, List.rdropWhile_concat_neg]
    simpa using hlast
  have htext := rdropWhile_append horigin base.pathPrefix
  simpa [rstripSlash, text, path] using htext

theorem path_free : Uri.Free ['?', '#'] base.path := by
  intro c hc
  have hstripped := List.rdropWhile_prefix (· = '/') base.pathPrefix
  exact base.prefix_free c (hstripped.subset hc)

theorem path_slash : ∀ c ∈ base.path.head?, c = '/' := by
  intro c hc
  apply base.prefix_slash
  obtain ⟨rest, hprefix⟩ :=
    List.rdropWhile_prefix (fun c => decide (c = '/')) base.pathPrefix
  rw [path, Option.mem_def] at hc
  rw [← hprefix, List.head?_append, hc]
  exact rfl

end BaseUrl

theorem upstreamRequest_url (base : BaseUrl) (path : String)
    (request : Request) :
    (upstreamRequest base.text path request).url.toList =
      base.scheme ++ ':' :: '/' :: '/' :: (base.authority ++
        (base.path ++
          '/' :: (path.toList ++ queryPart request.url.query))) := by
  have hstripped := base.rstripSlash_text
  by_cases hquery : request.url.query = "" <;>
    simp [upstreamRequest, queryPart, hquery, hstripped]

theorem pathOf_append_queryPart (path : List Char) (queryString : String) :
    Uri.pathOf (path ++ queryPart queryString) = Uri.pathOf path := by
  have hnone : (queryPart queryString).takeWhile (· ∉ ['?', '#']) = [] := by
    unfold queryPart
    split <;> simp
  rw [Uri.pathOf, Uri.pathOf, List.takeWhile_append, hnone, List.append_nil]
  split
  · next hlength =>
    exact ((List.takeWhile_sublist _).eq_of_length hlength).symm
  · rfl

theorem split_upstreamRequest_url (base : BaseUrl) (path : String)
    (request : Request) :
    ∃ fragment,
      Uri.split (upstreamRequest base.text path request).url.toList =
        { scheme := some base.scheme
          authority := some base.authority
          path := base.path ++ '/' :: Uri.pathOf path.toList
          query := Uri.queryOf (path.toList ++ queryPart request.url.query)
          fragment := fragment } := by
  have hrest : ∀ c ∈ (base.path ++
      '/' :: (path.toList ++ queryPart request.url.query)).head?,
      c ∈ ['/', '?', '#'] := by
    intro c hc
    rw [List.head?_append] at hc
    cases hhead : base.path.head? with
    | none =>
        simp only [hhead, Option.none_or, List.head?_cons, Option.mem_def,
          Option.some.injEq] at hc
        simp [← hc]
    | some first =>
        have hslash := base.path_slash first hhead
        simp only [hhead, Option.some_or, Option.mem_def, Option.some.injEq]
          at hc
        simp [← hc, hslash]
  have hfree : Uri.Free ['?', '#'] (base.path ++ ['/']) := by
    intro c hc
    rcases List.mem_append.mp hc with hc | hc
    · exact base.path_free c hc
    · simp [List.mem_singleton.mp hc]
  have hjoin : base.path ++ '/' :: (path.toList ++
      queryPart request.url.query) = (base.path ++ ['/']) ++
        (path.toList ++ queryPart request.url.query) := by simp
  refine ⟨Uri.fragmentOf (base.path ++
    '/' :: (path.toList ++ queryPart request.url.query)), ?_⟩
  rw [upstreamRequest_url, Uri.split_absolute base.scheme_free base.scheme_ne
    base.authority_free hrest]
  rw [hjoin, Uri.pathOf_append_free hfree, Uri.queryOf_append_free hfree,
    pathOf_append_queryPart, List.append_assoc]
  rfl

/-! ## The path -/

theorem proxy_template : ∀ route ∈ routes, route.endpoint = .proxy →
    route.template = .rest "/" := by
  decide

theorem route_path {request : Request} {path : String}
    (hroute : findRoute routes request.method request.scopePath =
      .found .proxy path) :
    ∃ rest, request.scopePath.toList = '/' :: rest ∧
      path.toList = beforeNewline rest := by
  obtain ⟨route, hmem, hendpoint, hmatch⟩ := mem_of_findRoute hroute
  rw [proxy_template route hmem hendpoint] at hmatch
  simp only [Template.match?] at hmatch
  split at hmatch
  · next hpath =>
    obtain ⟨rest, hrest⟩ := List.isPrefixOf_iff_prefix.mp hpath.1
    refine ⟨rest, hrest.symm, ?_⟩
    obtain rfl := Option.some.inj hmatch
    rw [String.toList_ofList, ← hrest]
    rfl
  · cases hmatch

theorem percentDecode_pathOf_iff (rest : List Char) :
    Uri.percentDecode (Uri.pathOf (beforeNewline rest)) = Uri.utf8 rest ↔
      Uri.Free ['?', '#'] rest ∧ Uri.hasEscape rest = false ∧
        rest.getLast? ≠ some '\n' := by
  have hkept := beforeNewline_isPrefix rest
  constructor
  · intro heq
    -- what was cut off would have octets, and no octets are missing
    have hwhole : Uri.pathOf (beforeNewline rest) = rest := by
      obtain ⟨cut, hcut⟩ := (Uri.pathOf_isPrefix _).trans hkept
      have hdecoded := Uri.percentDecode_length_le
        (Uri.pathOf (beforeNewline rest))
      have hoctets := congrArg (fun text => (Uri.utf8 text).length) hcut
      rw [heq] at hdecoded
      simp only [Uri.utf8_append, List.length_append] at hoctets
      have hnone : cut = [] := by
        apply Uri.eq_nil_of_utf8
        omega
      rwa [hnone, List.append_nil] at hcut
    have hsame : beforeNewline rest = rest := by
      apply hkept.eq_of_length_le
      have hlength := (Uri.pathOf_isPrefix (beforeNewline rest)).length_le
      rwa [hwhole] at hlength
    have hnewline : rest.getLast? ≠ some '\n' := by
      intro hlast
      rw [beforeNewline, if_pos hlast] at hsame
      have hlength := congrArg List.length hsame
      have hne : rest ≠ [] := by
        rintro rfl
        cases hlast
      have hpos := List.length_pos_of_ne_nil hne
      rw [List.length_dropLast] at hlength
      omega
    rw [hsame] at hwhole heq
    rw [hwhole] at heq
    exact ⟨Uri.pathOf_eq_self_iff.mp hwhole,
      Uri.percentDecode_eq_utf8_iff.mp heq, hnewline⟩
  · rintro ⟨hfree, hescape, hnewline⟩
    rw [beforeNewline, if_neg hnewline, Uri.pathOf_eq_self_iff.mpr hfree,
      Uri.percentDecode_eq_utf8_iff.mpr hescape]

/-! ## The query -/

theorem queryOf_queryPart (queryString : String) :
    (Uri.queryOf (queryPart queryString)).getD [] =
      queryString.toList.takeWhile (· ≠ '#') := by
  unfold queryPart
  split
  · rfl
  · next hempty =>
    rw [not_not] at hempty
    simp [hempty, Uri.queryOf]

theorem queryOf_filter_queryPart (queryString : String) :
    (Uri.queryOf ((queryPart queryString).filter (· ∉ unsafeChars))).getD [] =
      (queryString.toList.filter (· ∉ unsafeChars)).takeWhile (· ≠ '#') := by
  unfold queryPart
  split
  · simp [unsafeChars, Uri.queryOf]
  · next hempty =>
    rw [not_not] at hempty
    simp [hempty, Uri.queryOf]

theorem filter_free {stops text : List Char} (htext : Uri.Free stops text)
    (p : Char → Bool) : Uri.Free stops (text.filter p) :=
  fun c hc => htext c (List.mem_of_mem_filter hc)

theorem requestUrl_query {secure : Bool} {netloc : List Char}
    (hnetloc : Uri.Free ['/', '?', '#'] netloc) {scopePath : String}
    (hpath : Uri.Free ['?', '#'] scopePath.toList)
    (hslash : scopePath.toList.head? = some '/') (queryString : String) :
    (requestUrl secure netloc scopePath queryString).query.toList =
      (queryString.toList.filter (· ∉ unsafeChars)).takeWhile (· ≠ '#') := by
  have hrest : ∀ c ∈ (scopePath.toList.filter (· ∉ unsafeChars) ++
      (queryPart queryString).filter (· ∉ unsafeChars)).head?,
      c ∈ ['/', '?', '#'] := by
    obtain ⟨rest, hrest⟩ := List.head?_eq_some_iff.mp hslash
    rw [hrest]
    simp [unsafeChars]
  have hscheme : (scopeScheme secure).filter (· ∉ unsafeChars) =
      scopeScheme secure := by
    cases secure <;> decide
  have hscheme_free : Uri.Free [':', '/', '?', '#'] (scopeScheme secure) := by
    cases secure <;> decide
  have hscheme_ne : scopeScheme secure ≠ [] := by
    cases secure <;> decide
  have hfiltered : (scopeScheme secure ++ ':' :: '/' :: '/' ::
      (netloc ++ (scopePath.toList ++ queryPart queryString))).filter
        (· ∉ unsafeChars) = scopeScheme secure ++ ':' :: '/' :: '/' ::
        (netloc.filter (· ∉ unsafeChars) ++
          (scopePath.toList.filter (· ∉ unsafeChars) ++
            (queryPart queryString).filter (· ∉ unsafeChars))) := by
    rw [List.filter_append, hscheme]
    simp [unsafeChars]
  rw [requestUrl, urlsplit, hfiltered, Uri.split_absolute hscheme_free
    hscheme_ne (filter_free hnetloc _) hrest, String.toList_ofList,
    Uri.queryOf_append_free (filter_free hpath _)]
  exact queryOf_filter_queryPart queryString

theorem filter_takeWhile_eq_self_iff {text : List Char} :
    (text.filter (· ∉ unsafeChars)).takeWhile (· ≠ '#') = text ↔
      Uri.Free ('#' :: unsafeChars) text := by
  constructor
  · intro heq c hc
    rw [← heq] at hc
    have hmark := List.mem_takeWhile_imp hc
    have hkept := List.takeWhile_subset _ hc
    rw [List.mem_filter] at hkept
    simp_all
  · intro hfree
    have hfilter : text.filter (· ∉ unsafeChars) = text := by
      rw [List.filter_eq_self]
      intro c hc
      simpa using fun hunsafe => hfree c hc (List.mem_cons_of_mem _ hunsafe)
    rw [hfilter, List.takeWhile_eq_self_iff]
    intro c hc
    simpa using fun hmark => hfree c hc (by simp [hmark])

theorem takeWhile_query (queryString : String) :
    ((queryString.toList.filter (· ∉ unsafeChars)).takeWhile
      (· ≠ '#')).takeWhile (· ≠ '#') =
        (queryString.toList.filter (· ∉ unsafeChars)).takeWhile (· ≠ '#') := by
  rw [List.takeWhile_takeWhile]
  simp

/-! ## Faithful targets -/

theorem survives_cons (rest : List Char) :
    (Uri.Free ['?', '#'] ('/' :: rest) ∧ Uri.hasEscape ('/' :: rest) = false ∧
        ('/' :: rest).getLast? ≠ some '\n') ↔
      Uri.Free ['?', '#'] rest ∧ Uri.hasEscape rest = false ∧
        rest.getLast? ≠ some '\n' := by
  have hescape : Uri.hasEscape ('/' :: rest) = Uri.hasEscape rest := rfl
  have hfree : Uri.Free ['?', '#'] ('/' :: rest) ↔
      Uri.Free ['?', '#'] rest := by
    simp [Uri.Free]
  rw [hescape, hfree]
  cases rest with
  | nil => simp
  | cons c rest => rw [List.getLast?_cons_cons]

/--
The upstream is asked for the target that the client sent exactly when, in the
decoded path, there is no delimiter, no escape and no newline at the end, and in
the query no number sign and no character that `urlsplit` removes.
-/
theorem target_faithful_iff (base : BaseUrl) {request : Request}
    {rawPath : List Char} {queryString path : String}
    (hpresented : Presented request rawPath queryString)
    (hroute : findRoute routes request.method request.scopePath =
      .found .proxy path) :
    Faithful base rawPath queryString
        (upstreamRequest base.text path request).url ↔
      Survives request.scopePath queryString := by
  obtain ⟨hdecoded, secure, netloc, hnetloc, hurl⟩ := hpresented
  obtain ⟨rest, hscope, hpath⟩ := route_path hroute
  obtain ⟨fragment, hsplit⟩ := split_upstreamRequest_url base path request
  have hpathIff : Uri.percentDecode (base.path ++
        '/' :: Uri.pathOf path.toList) =
      Uri.percentDecode base.path ++ Uri.percentDecode rawPath ↔
      Uri.Free ['?', '#'] request.scopePath.toList ∧
        Uri.hasEscape request.scopePath.toList = false ∧
        request.scopePath.toList.getLast? ≠ some '\n' := by
    rw [hdecoded, hscope, survives_cons, ← percentDecode_pathOf_iff, hpath,
      Uri.percentDecode_append (by decide) (by decide), Uri.utf8_cons,
      List.append_cancel_left_eq, List.append_cancel_left_eq]
  rw [Faithful, hsplit, Survives, hpathIff]
  apply and_congr_right
  rintro ⟨hfree, -, hnewline⟩
  have hpathFree : Uri.Free ['?', '#'] path.toList := by
    intro c hc
    rw [hpath] at hc
    apply hfree c
    rw [hscope]
    exact List.mem_cons_of_mem _ ((beforeNewline_isPrefix rest).subset hc)
  have hquery : request.url.query.toList =
      (queryString.toList.filter (· ∉ unsafeChars)).takeWhile (· ≠ '#') := by
    rw [Request.url_of_some hurl]
    exact requestUrl_query hnetloc hfree (by rw [hscope]; rfl) queryString
  rw [Uri.queryOf_append_free hpathFree, queryOf_queryPart, hquery,
    takeWhile_query, filter_takeWhile_eq_self_iff]

def apiBase : BaseUrl :=
  { scheme := "http".toList
    authority := "upstream:8001".toList
    pathPrefix := "/api/".toList
    scheme_free := by decide
    scheme_ne := by decide
    authority_free := by decide
    authority_ne := by decide
    prefix_free := by decide
    prefix_slash := by simp }

def getRequest (scopePath queryString : String) : Request :=
  { method := "GET"
    scopePath := scopePath
    url? := some (requestUrl false "gateway".toList scopePath queryString)
    headers := [("host", "gateway")]
    client := some "127.0.0.1"
    body := [] }

theorem presented_getRequest {rawPath : List Char} {scopePath : String}
    (hdecoded : Uri.percentDecode rawPath = Uri.utf8 scopePath.toList)
    (queryString : String) :
    Presented (getRequest scopePath queryString) rawPath queryString where
  decoded := hdecoded
  assembled := ⟨false, "gateway".toList, by decide, rfl⟩

theorem target_faithful_iff_cafe :
    Faithful apiBase "/caf%C3%A9".toList "q=1"
      (upstreamRequest apiBase.text "café" (getRequest "/café" "q=1")).url := by
  refine (target_faithful_iff apiBase
    (presented_getRequest (by decide +kernel) "q=1") ?_).mpr ?_
  · decide +kernel
  · decide +kernel

theorem encoded_delimiter_splits_path :
    ¬ ∀ (base : BaseUrl) (request : Request) (rawPath : List Char)
      (queryString path : String), Presented request rawPath queryString →
      findRoute routes request.method request.scopePath = .found .proxy path →
      Faithful base rawPath queryString
        (upstreamRequest base.text path request).url := by
  intro hfaithful
  have hpath := (hfaithful apiBase (getRequest "/a?b" "") "/a%3Fb".toList ""
    "a?b" (presented_getRequest (by decide +kernel) "") (by decide +kernel)).1
  revert hpath
  decide +kernel

end RateLimitedGateway.Routes
