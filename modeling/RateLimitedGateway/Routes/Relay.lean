import Mathlib.Data.List.Infix
import RateLimitedGateway.Http.Fields
import RateLimitedGateway.Routes.Proxy

/-!
# What the client is told of a body

The proxy relays the body with its coding undone, beside header fields that
still describe it as the upstream sent it.  The two agree again only where
there was no coding to undo.
-/

namespace RateLimitedGateway.Routes

open RateLimitedGateway.Http RateLimitedGateway.Infra

structure WireResponse where
  statusCode : Nat
  headers : Headers
  body : List UInt8
  deriving DecidableEq, Repr

/-- Decoders by the value of `Content-Encoding`; `none` is a `DecodingError`. -/
abbrev Decoder := Option String → List UInt8 → Option (List UInt8)

def received (decode : Decoder) (wire : WireResponse) :
    Option UpstreamResponse :=
  (decode (wire.headers.joined.get "content-encoding") wire.body).map
    fun content =>
      { statusCode := wire.statusCode, headers := wire.headers.joined,
        content := content }

/-- Starlette's `init_headers`, for a response that renders as `body`. -/
def initHeaders (response : Response) (body : List UInt8) : Headers :=
  let rawHeaders := response.headers.map fun field => (lower field.1, field.2)
  let keys := Headers.names rawHeaders
  let sized :=
    if "content-length" ∉ keys ∧
        ¬ (response.statusCode < 200 ∨ response.statusCode ∈ [204, 304]) then
      rawHeaders ++ [("content-length", toString body.length)]
    else rawHeaders
  match response.mediaType with
  | none => sized
  | some contentType =>
      if "content-type" ∈ keys then sized
      else if startsWith contentType "text/" ∧
          ¬ "charset=".toList <:+: (lower contentType).toList then
        sized ++ [("content-type", contentType ++ "; charset=utf-8")]
      else sized ++ [("content-type", contentType)]

def statedLength (text : String) : Option Nat :=
  if text ≠ "" ∧ text.toList.all Char.isDigit then
    some (Nat.ofDigitChars 10 text.toList 0)
  else none

/-- The reply describes the body it carries: `content`, once decoded. -/
def SelfConsistent (decode : Decoder) (content : List UInt8)
    (response : Response) : Prop :=
  ∃ body, response.content = .bytes body ∧
    decode ((initHeaders response body).get "content-encoding") body =
      some content ∧
    ∀ text, (initHeaders response body).get "content-length" = some text →
      statedLength text = some body.length

def Uncoded (decode : Decoder) (wire : WireResponse) (content : List UInt8) :
    Prop :=
  decode (wire.headers.joined.get "content-encoding") content = some content ∧
    ∀ text, wire.headers.joined.get "content-length" = some text →
      statedLength text = some content.length

theorem statedLength_toString (n : ℕ) : statedLength (toString n) = some n := by
  have hne : toString n ≠ "" := Nat.repr_ne_empty
  have hdigits : (toString n).toList.all Char.isDigit = true := by
    simpa using fun c hc =>
      Nat.isDigit_of_mem_toDigits (by omega) (by omega) hc
  have hlist : (toString n).toList = Nat.toDigits 10 n := Nat.toList_repr
  rw [statedLength, if_pos ⟨hne, hdigits⟩, hlist, Nat.ofDigitChars_ten_toDigits]

/-! ## The fields of the reply -/

theorem relay_headers_get {response : UpstreamResponse}
    (hnodup : (Headers.names response.headers).Nodup) {name : String}
    (hkept : lower name ∉ hopByHop) :
    (relay response).headers.get name = response.headers.get name := by
  have hsublist : (Headers.names (response.headers.filter
      fun field => lower field.1 ∉ hopByHop)).Nodup :=
    (List.filter_sublist.map Prod.fst).nodup hnodup
  rw [relay, Headers.ofItems_of_nodup hsublist]
  exact Headers.get_filter (fun name => name ∉ hopByHop) (by simpa using hkept)
    _

theorem lower_contentLength : lower "content-length" = "content-length" := by
  decide +kernel

theorem lower_contentType : lower "content-type" = "content-type" := by
  decide +kernel

theorem sizedHeaders_eq (response : Response) (body : List UInt8) :
    ∃ sized : Headers,
      (if "content-length" ∉ response.headers.lowered.names ∧
          ¬ (response.statusCode < 200 ∨ response.statusCode ∈ [204, 304]) then
        response.headers.lowered ++ [("content-length", toString body.length)]
      else response.headers.lowered) = response.headers.lowered ++ sized ∧
      ∀ field ∈ sized, response.headers.get field.1 = none ∧
        field = ("content-length", toString body.length) := by
  split
  · next hnew =>
    refine ⟨[("content-length", toString body.length)], rfl, ?_⟩
    intro field hfield
    rw [List.mem_singleton.mp hfield]
    exact ⟨Headers.get_eq_none_of_lower_eq lower_contentLength hnew.1, rfl⟩
  · exact ⟨[], (List.append_nil _).symm, by simp⟩

theorem initHeaders_eq (response : Response) (body : List UInt8) :
    ∃ added : Headers, initHeaders response body =
        response.headers.lowered ++ added ∧
      ∀ field ∈ added, response.headers.get field.1 = none ∧
        (field.1 = "content-type" ∨
          field = ("content-length", toString body.length)) := by
  -- the length first, then the type
  obtain ⟨sized, hsized, hfields⟩ := sizedHeaders_eq response body
  have hsized' : ∀ field ∈ sized, response.headers.get field.1 = none ∧
      (field.1 = "content-type" ∨
        field = ("content-length", toString body.length)) := by
    intro field hfield
    exact (hfields field hfield).imp_right .inr
  have hinit : initHeaders response body =
      match response.mediaType with
      | none => response.headers.lowered ++ sized
      | some contentType =>
          if "content-type" ∈ response.headers.lowered.names then
            response.headers.lowered ++ sized
          else if startsWith contentType "text/" ∧
              ¬ "charset=".toList <:+: (lower contentType).toList then
            response.headers.lowered ++ sized ++
              [("content-type", contentType ++ "; charset=utf-8")]
          else
            response.headers.lowered ++ sized ++
              [("content-type", contentType)] := by
    rw [← hsized]
    rfl
  rw [hinit]
  split
  · exact ⟨sized, rfl, hsized'⟩
  · split
    · exact ⟨sized, rfl, hsized'⟩
    · next hnew =>
      split
      all_goals
        refine ⟨_, List.append_assoc _ _ _, ?_⟩
        intro field hfield
        rcases List.mem_append.mp hfield with hfield | hfield
        · exact hsized' field hfield
        · rw [List.mem_singleton.mp hfield]
          exact ⟨Headers.get_eq_none_of_lower_eq lower_contentType hnew,
            .inl rfl⟩

theorem initHeaders_get (response : Response) (body : List UInt8)
    {name : String} (htype : lower name ≠ "content-type")
    (hlength : lower name ≠ "content-length") :
    (initHeaders response body).get name = response.headers.get name := by
  obtain ⟨added, heq, hadded⟩ := initHeaders_eq response body
  have hnone : added.get name = none := by
    rw [Headers.get, Option.map_eq_none_iff, List.find?_eq_none]
    intro field hfield hname
    rw [decide_eq_true_eq] at hname
    rcases (hadded field hfield).2 with htype' | rfl
    · rw [htype', lower_contentType] at hname
      exact htype hname.symm
    · rw [lower_contentLength] at hname
      exact hlength hname.symm
  rw [heq, Headers.get_append, Headers.get_lowered, hnone, Option.or_none]

theorem initHeaders_contentLength (response : Response) (body : List UInt8)
    (text : String)
    (hstated : (initHeaders response body).get "content-length" = some text) :
    response.headers.get "content-length" = some text ∨
      response.headers.get "content-length" = none ∧
        text = toString body.length := by
  obtain ⟨added, heq, hadded⟩ := initHeaders_eq response body
  rw [heq, Headers.get_append, Headers.get_lowered] at hstated
  cases hgiven : response.headers.get "content-length" with
  | some given =>
      left
      simpa [hgiven] using hstated
  | none =>
      right
      rw [hgiven, Option.none_or, Headers.get,
        Option.map_eq_some_iff] at hstated
      obtain ⟨field, hfound, rfl⟩ := hstated
      have hname := List.find?_some hfound
      rcases (hadded field (List.mem_of_find?_eq_some hfound)).2 with
        htype | rfl
      · rw [htype, lower_contentType, lower_contentLength] at hname
        simp at hname
      · exact ⟨rfl, rfl⟩

theorem initHeaders_contentLength_of_some {response : Response} {text : String}
    (hgiven : response.headers.get "content-length" = some text)
    (body : List UInt8) :
    (initHeaders response body).get "content-length" = some text := by
  obtain ⟨added, heq, -⟩ := initHeaders_eq response body
  rw [heq, Headers.get_append, Headers.get_lowered, hgiven, Option.some_or]

/-! ## Faithful replies -/

theorem selfConsistent_relay_iff {decode : Decoder} {wire : WireResponse}
    {response : UpstreamResponse} (hreceived : received decode wire =
      some response) :
    SelfConsistent decode response.content (relay response) ↔
      Uncoded decode wire response.content := by
  obtain ⟨content, -, rfl⟩ := Option.map_eq_some_iff.mp hreceived
  have hnodup := Headers.names_joined_nodup wire.headers
  have hcoding : (initHeaders (relay ⟨wire.statusCode, wire.headers.joined,
      content⟩) content).get "content-encoding" =
        wire.headers.joined.get "content-encoding" := by
    rw [initHeaders_get _ _ (by decide +kernel) (by decide +kernel),
      relay_headers_get hnodup (by decide +kernel)]
  have hlength : (relay ⟨wire.statusCode, wire.headers.joined,
      content⟩).headers.get "content-length" =
        wire.headers.joined.get "content-length" :=
    relay_headers_get hnodup (by decide +kernel)
  constructor
  · rintro ⟨body, hbody, hdecoded, hstated⟩
    cases hbody
    refine ⟨hcoding ▸ hdecoded, ?_⟩
    intro text htext
    apply hstated
    exact initHeaders_contentLength_of_some (hlength.trans htext) _
  · rintro ⟨hdecoded, hstated⟩
    refine ⟨content, rfl, hcoding.symm ▸ hdecoded, ?_⟩
    intro text htext
    rcases initHeaders_contentLength _ _ _ htext with hgiven | ⟨-, rfl⟩
    · exact hstated text (hlength.symm.trans hgiven)
    · exact statedLength_toString _

theorem run_reply_of_answered {proxy : ProxyRoute} {circuit : Circuit}
    {visit : Visit} {response : UpstreamResponse} {reply : Response}
    (hanswered : visit.exchange = .answered response)
    (hreply : (proxy.run circuit visit).1.reply = .responded reply) :
    reply = relay response := by
  simp only [ProxyRoute.run, CircuitBreaker.call, ProxyRoute.ending,
    doUpstreamRequest, hanswered] at hreply
  cases henter : proxy.breaker.enter circuit visit.arrival with
  | error exc => simp [henter, conclude] at hreply
  | ok entered =>
      cases hsent : proxy.httpx (proxy.sent visit) with
      | some exc => cases exc <;> simp [henter, hsent, conclude] at hreply
      | none =>
          simp only [henter, hsent, conclude] at hreply
          split at hreply
          · exact (Reply.responded.inj hreply).symm
          · cases hreply

/--
The reply to a request that the upstream has answered describes its body exactly
when decoding the body once more changes nothing, and the upstream has stated no
other length than that of the decoded body.
-/
theorem reply_selfConsistent_iff {decode : Decoder} {proxy : ProxyRoute}
    {circuit : Circuit} {visit : Visit} {wire : WireResponse}
    {response : UpstreamResponse} {reply : Response}
    (hreceived : received decode wire = some response)
    (hanswered : visit.exchange = .answered response)
    (hreply : (proxy.run circuit visit).1.reply = .responded reply) :
    SelfConsistent decode response.content reply ↔
      Uncoded decode wire response.content := by
  rw [run_reply_of_answered hanswered hreply]
  exact selfConsistent_relay_iff hreceived

/-! ## A compressed response -/

def plain : List UInt8 := [104, 105]

def gzipped : List UInt8 :=
  [31, 139, 8, 0, 0, 0, 0, 0, 2, 3, 203, 200, 4, 0, 172, 42, 147, 216, 2, 0, 0,
    0]

/-- As far as these two bodies go; what is not a `gzip` file is an error. -/
def gunzip : Decoder
  | some "gzip", body => if body = gzipped then some plain else none
  | _, body => some body

def hiProxy : ProxyRoute :=
  { breaker := upstreamBreaker, upstreamBaseUrl := "http://upstream"
    httpx := fun _ => none }

def hiVisit (response : UpstreamResponse) : Visit :=
  { path := "hi"
    request :=
      { method := "GET", scopePath := "/hi", url? := some ⟨"/hi", ""⟩
        headers := [("accept-encoding", "gzip")], client := some "127.0.0.1"
        body := [] }
    arrival := 0
    exchange := .answered response
    finish := 0 }

def plainHi : WireResponse :=
  ⟨200, [("Content-Type", "text/plain"), ("Content-Length", "2")], plain⟩

def gzippedHi : WireResponse :=
  ⟨200, [("Content-Encoding", "gzip"), ("Content-Length", "22")], gzipped⟩

def hiReceived (wire : WireResponse) : UpstreamResponse :=
  ⟨wire.statusCode, wire.headers.joined, plain⟩

theorem reply_selfConsistent_iff_plainHi :
    SelfConsistent gunzip plain (relay (hiReceived plainHi)) := by
  have hreply : (hiProxy.run CircuitBreaker.initial
      (hiVisit (hiReceived plainHi))).1.reply =
        .responded (relay (hiReceived plainHi)) := by decide +kernel
  have hreceived : received gunzip plainHi = some (hiReceived plainHi) := by
    decide +kernel
  refine (reply_selfConsistent_iff hreceived rfl hreply).mpr ⟨?_, ?_⟩
  · decide +kernel
  · intro text htext
    have hstated : plainHi.headers.joined.get "content-length" =
        some (toString 2) := by decide +kernel
    rw [hstated] at htext
    cases htext
    exact statedLength_toString 2

theorem gzipped_reply_misdescribed :
    ¬ ∀ (decode : Decoder) (proxy : ProxyRoute) (circuit : Circuit)
      (visit : Visit) (wire : WireResponse) (response : UpstreamResponse)
      (reply : Response), visit.request.method ≠ "HEAD" →
      received decode wire = some response →
      visit.exchange = .answered response →
      (proxy.run circuit visit).1.reply = .responded reply →
      SelfConsistent decode response.content reply := by
  intro hfaithful
  obtain ⟨body, hbody, hdecoded, -⟩ := hfaithful gunzip hiProxy
    CircuitBreaker.initial (hiVisit (hiReceived gzippedHi)) gzippedHi
    (hiReceived gzippedHi) (relay (hiReceived gzippedHi)) (by decide)
    (by decide +kernel) rfl (by decide +kernel)
  cases hbody
  revert hdecoded
  decide +kernel

end RateLimitedGateway.Routes
