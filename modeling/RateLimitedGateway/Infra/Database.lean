import Mathlib.Data.List.TakeDrop
import RateLimitedGateway.Foundation.Urlparse

/-!
# The database engine's URL

`_build_engine_kwargs` takes the SSL parameters out of the database URL, which
the driver does not accept there, and asks for a secure connection otherwise.
The query is read as a dictionary of lists, and written from one of values.
-/

namespace RateLimitedGateway.Infra

open RateLimitedGateway.Foundation RateLimitedGateway.Foundation.FormQuery
open RateLimitedGateway.Foundation.Urlparse

/-- The keyword arguments; `ssl` is the context in `connect_args`, if any. -/
structure EngineKwargs where
  echo : Bool := false
  future : Bool := true
  ssl : Bool
  deriving DecidableEq, Repr

def popped (params : List (List Char × List (List Char))) (name : String) :
    Option (List (List Char)) :=
  (params.find? fun entry => entry.1 = name.toList).map Prod.snd

def without (params : List (List Char × List (List Char))) (name : String) :
    List (List Char × List (List Char)) :=
  params.filter fun entry => entry.1 ≠ name.toList

/--
`_build_engine_kwargs`; `none` is a `ValueError` of `urlparse`.  The default of
the outer `pop` is evaluated before it, so that both parameters go.
-/
def buildEngineKwargs (checkNetloc : List Char → Bool) (url : String) :
    Option (String × EngineKwargs) :=
  (urlparse checkNetloc url.toList).map fun parsed =>
    let params := parseQs parsed.query
    let sslmode := popped params "sslmode"
    let params := without params "sslmode"
    let sslVal := ((popped params "ssl").or sslmode).bind List.head?
    let params := without params "ssl"
    let cleanQuery := urlencode
      (params.map fun entry => (entry.1, entry.2.headD []))
    let cleanUrl := urlunparse { parsed with query := cleanQuery }
    (String.ofList cleanUrl,
      { ssl := sslVal.any fun value =>
          value ≠ [] ∧ value ≠ "disable".toList })

/-! ## What the engine is given -/

def queryValues (name : String) (query : List Char) : List (List Char) :=
  Dictionary.valuesAt name.toList (parseQsl query)

def OnlySslLeaves (checkNetloc : List Char → Bool) (parsed : ParseResult)
    (cleanUrl : String) : Prop :=
  ∃ cleaned, urlparse checkNetloc cleanUrl.toList = some cleaned ∧
    { cleaned with query := parsed.query } = parsed ∧
    (∀ name, name ∉ ["ssl", "sslmode"] →
      queryValues name cleaned.query = queryValues name parsed.query) ∧
    ∀ name ∈ ["ssl", "sslmode"], queryValues name cleaned.query = []

def UnrepeatedParameters (query : List Char) : Prop :=
  ∀ name, name ∉ ["ssl", "sslmode"] → (queryValues name query).length ≤ 1

def cleanQuery (query : List Char) : List Char :=
  urlencode ((without (without (parseQs query) "sslmode") "ssl").map
    fun entry => (entry.1, entry.2.headD []))

theorem valuesAt_without (params : List (List Char × List (List Char)))
    (removed name : String) :
    Dictionary.valuesAt name.toList (without params removed) =
      if name = removed then []
      else Dictionary.valuesAt name.toList params := by
  split
  · next hremoved =>
    apply Dictionary.valuesAt_filter_of_drop fun key => key ≠ removed.toList
    simp [hremoved]
  · next hkept =>
    apply Dictionary.valuesAt_filter_of_keep fun key => key ≠ removed.toList
    simpa [String.toList_inj] using hkept

theorem queryValues_cleanQuery (name : String) (query : List Char) :
    queryValues name (cleanQuery query) =
      if name ∈ ["ssl", "sslmode"] then []
      else (queryValues name query).take 1 := by
  rw [queryValues, cleanQuery, parseQsl_urlencode]
  refine (Dictionary.valuesAt_map_snd
    (fun values : List (List Char) => values.headD []) _ _).trans ?_
  rw [valuesAt_without, valuesAt_without, valuesAt_parseQs]
  by_cases hssl : name = "ssl"
  · simp [hssl]
  · by_cases hsslmode : name = "sslmode"
    · simp [hsslmode]
    · have hname : name ∉ ["ssl", "sslmode"] := by simp [hssl, hsslmode]
      rw [queryValues, if_neg hssl, if_neg hsslmode, if_neg hname]
      cases Dictionary.valuesAt name.toList (parseQsl query) <;> simp

theorem cleanQuery_free (query : List Char) :
    Uri.Free ('#' :: unsafeChars) (cleanQuery query) :=
  urlencode_free (by decide) (by decide) (by decide) _

/--
Scheme, authority, path and fragment stay, and both SSL parameters go; the other
parameters are all there exactly if none of them came twice.
-/
theorem only_ssl_leaves_iff {checkNetloc : List Char → Bool} {url : String}
    {parsed : ParseResult}
    (hparsed : urlparse checkNetloc url.toList = some parsed)
    (hauthority : parsed.netloc ≠ []) :
    (∃ cleanUrl kwargs,
      buildEngineKwargs checkNetloc url = some (cleanUrl, kwargs) ∧
        OnlySslLeaves checkNetloc parsed cleanUrl) ↔
      UnrepeatedParameters parsed.query := by
  let clean : ParseResult := { parsed with query := cleanQuery parsed.query }
  have hlocated := located_of_urlparse hparsed hauthority
  have hclean : Located checkNetloc clean :=
    { hlocated with }
  have hagain : urlparse checkNetloc (urlunparse clean) = some clean :=
    urlparse_urlunparse hclean (cleanQuery_free parsed.query)
  have hbuilt : ∃ kwargs, buildEngineKwargs checkNetloc url =
      some (String.ofList (urlunparse clean), kwargs) := by
    rw [buildEngineKwargs, hparsed]
    exact ⟨_, rfl⟩
  have hvalues : ∀ name, name ∉ ["ssl", "sslmode"] →
      queryValues name clean.query =
        (queryValues name parsed.query).take 1 := by
    intro name hname
    exact (queryValues_cleanQuery name parsed.query).trans (if_neg hname)
  constructor
  · rintro ⟨cleanUrl, kwargs, hresult, cleaned, hcleaned, -, hkept, -⟩
    obtain ⟨_, hbuilt⟩ := hbuilt
    rw [hbuilt, Option.some_inj, Prod.mk.injEq] at hresult
    rw [← hresult.1, String.toList_ofList, hagain, Option.some_inj] at hcleaned
    subst hcleaned
    intro name hname
    rw [← List.take_eq_self_iff, ← hvalues name hname, hkept name hname]
  · intro hunrepeated
    obtain ⟨kwargs, hbuilt⟩ := hbuilt
    refine ⟨_, kwargs, hbuilt, clean, ?_, rfl, ?_, ?_⟩
    · rw [String.toList_ofList, hagain]
    · intro name hname
      rw [hvalues name hname, List.take_eq_self_iff]
      exact hunrepeated name hname
    · intro name hname
      exact (queryValues_cleanQuery name parsed.query).trans (if_pos hname)

/-! ## Two database URLs -/

def neonUrl : String :=
  "postgresql+asyncpg://user:pw@db.example/gateway?sslmode=require&timeout=5"

theorem only_ssl_leaves_iff_neonUrl :
    ∃ parsed cleanUrl kwargs,
      urlparse (fun _ => true) neonUrl.toList = some parsed ∧
        buildEngineKwargs (fun _ => true) neonUrl = some (cleanUrl, kwargs) ∧
          OnlySslLeaves (fun _ => true) parsed cleanUrl := by
  have hparsed : urlparse (fun _ => true) neonUrl.toList = some
      { scheme := "postgresql+asyncpg".toList
        netloc := "user:pw@db.example".toList
        path := "/gateway".toList
        params := []
        query := "sslmode=require&timeout=5".toList
        fragment := [] } := by decide +kernel
  have hnames : ((parseQsl "sslmode=require&timeout=5".toList).map
      Prod.fst).Nodup := by decide +kernel
  have hunrepeated :
      UnrepeatedParameters "sslmode=require&timeout=5".toList := by
    intro name _
    exact Dictionary.nodup_keys_iff.mp hnames name.toList
  obtain ⟨cleanUrl, kwargs, hbuilt, hleaves⟩ :=
    (only_ssl_leaves_iff hparsed (by decide)).mpr hunrepeated
  exact ⟨_, cleanUrl, kwargs, hparsed, hbuilt, hleaves⟩

def twoHostsUrl : String :=
  "postgresql+asyncpg://user:pw@/gateway?host=db1&host=db2&ssl=require"

theorem second_host_is_lost :
    ¬ ∀ (checkNetloc : List Char → Bool) (url : String) (parsed : ParseResult),
      urlparse checkNetloc url.toList = some parsed → parsed.netloc ≠ [] →
        ∃ cleanUrl kwargs,
          buildEngineKwargs checkNetloc url = some (cleanUrl, kwargs) ∧
            OnlySslLeaves checkNetloc parsed cleanUrl := by
  intro hleaves
  have hparsed : urlparse (fun _ => true) twoHostsUrl.toList = some
      { scheme := "postgresql+asyncpg".toList
        netloc := "user:pw@".toList
        path := "/gateway".toList
        params := []
        query := "host=db1&host=db2&ssl=require".toList
        fragment := [] } := by decide +kernel
  obtain ⟨cleanUrl, kwargs, hbuilt, cleaned, hcleaned, -, hkept, -⟩ :=
    hleaves _ _ _ hparsed (by decide)
  have hurl : (buildEngineKwargs (fun _ => true) twoHostsUrl).map Prod.fst =
      some "postgresql+asyncpg://user:pw@/gateway?host=db1" := by
    decide +kernel
  rw [hbuilt, Option.map_some, Option.some_inj] at hurl
  have hquery : (urlparse (fun _ => true) cleanUrl.toList).map
      (·.query) = some "host=db1".toList := by
    rw [show cleanUrl = _ from hurl]
    decide +kernel
  rw [hcleaned, Option.map_some, Option.some_inj] at hquery
  have hhosts := hkept "host" (by decide)
  rw [hquery] at hhosts
  revert hhosts
  decide +kernel

end RateLimitedGateway.Infra
