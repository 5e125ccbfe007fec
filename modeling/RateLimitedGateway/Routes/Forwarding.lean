import RateLimitedGateway.Http.Wire
import RateLimitedGateway.Routes.Relay

/-!
# Header fields on the way through the proxy

In both directions the proxy copies fields into a `dict` with one entry for each
spelling of a name, drops the names it strips, and passes the entries on.  The
client's fields come in lower case, but the address of the peer is entered as
`X-Forwarded-For`; the upstream's fields come joined, one entry for each name.
A field that cannot be encoded on the other side takes all others with it.
-/

namespace RateLimitedGateway.Routes

open RateLimitedGateway.Foundation RateLimitedGateway.Http

def Unspoofed (peer : String) (sent : Headers) : Prop :=
  sent.values "X-Forwarded-For" = [peer] ∧
    ∀ field ∈ sent,
      lower field.1 ∉ ["host", "authorization", "content-length"]

/-- What is not stripped is passed on with each value as often as it came. -/
def PassedOn (stripped : List String) (fields : List WireField)
    (passed : List (String × List UInt8)) : Prop :=
  ∀ name, lower name ∉ stripped → ∀ value ∈ WireField.values fields name,
    (octetsAt passed name).count value =
      (WireField.values fields name).count value

def Unrepeated (stripped : List String) (fields : List WireField) : Prop :=
  ∀ name, lower name ∉ stripped → (WireField.values fields name).length ≤ 1

theorem unrepeated_of_passedOn {stripped : List String}
    {fields : List WireField} {passed : List (String × List UInt8)}
    (hsingle : ∀ name, lower name ∉ stripped →
      WireField.values fields name ≠ [] → (octetsAt passed name).length ≤ 1)
    (hpassed : PassedOn stripped fields passed) :
    Unrepeated stripped fields := by
  intro name hname
  by_cases hnone : WireField.values fields name = []
  · simp [hnone]
  · have hsubperm :
        (WireField.values fields name).Subperm (octetsAt passed name) := by
      rw [List.subperm_ext_iff]
      intro value hvalue
      exact (hpassed name hname value hvalue).ge
    exact hsubperm.length_le.trans (hsingle name hname hnone)

theorem passedOn_of_eq {stripped : List String} {fields : List WireField}
    {passed : List (String × List UInt8)}
    (heq : ∀ name, lower name ∉ stripped → WireField.values fields name ≠ [] →
      octetsAt passed name = WireField.values fields name) :
    PassedOn stripped fields passed := by
  intro name hname value hvalue
  rw [heq name hname (List.ne_nil_of_mem hvalue)]

theorem mem_of_passedOn {stripped : List String} {fields : List WireField}
    {passed : List (String × List UInt8)}
    (hpassed : PassedOn stripped fields passed) {name : String}
    (hname : lower name ∉ stripped) {value : List UInt8}
    (hvalue : value ∈ WireField.values fields name) :
    value ∈ octetsAt passed name := by
  rw [← List.count_pos_iff, hpassed name hname value hvalue]
  exact List.count_pos_iff.mpr hvalue

theorem eq_singleton_of_unrepeated {stripped : List String}
    {fields : List WireField} (hunrepeated : Unrepeated stripped fields)
    {name : String} (hname : lower name ∉ stripped) {value : List UInt8}
    (hvalue : value ∈ WireField.values fields name) :
    WireField.values fields name = [value] := by
  obtain ⟨only, honly⟩ := List.length_eq_one_iff.mp
    (le_antisymm (hunrepeated name hname) (List.length_pos_of_mem hvalue))
  rw [honly, List.mem_singleton] at hvalue
  rw [honly, hvalue]

/-! ## To the upstream -/

theorem lower_forwardedFor : lower "X-Forwarded-For" = "x-forwarded-for" := by
  decide +kernel

theorem values_set_forwardedFor {headers : Headers}
    (hlowered : headers.lowered = headers) (peer name : String) :
    (headers.set "X-Forwarded-For" peer).values name =
      headers.values name ++
        if lower name = "x-forwarded-for" then [peer] else [] := by
  have hnew : "X-Forwarded-For" ∉ headers.names := by
    intro hmem
    have hsame := Headers.lowered_eq_self_iff.mp hlowered _ hmem
    rw [lower_forwardedFor] at hsame
    exact absurd hsame (by decide)
  rw [Headers.set_of_not_mem hnew, Headers.values_append]
  congr 1
  rw [Headers.values, Headers.lowered, List.map_singleton,
    Dictionary.valuesAt_singleton, lower_forwardedFor]
  simp only [eq_comm]

def unstripped (stripped : List String) (fields : Headers) : Headers :=
  fields.filter fun field => lower field.1 ∉ stripped

theorem lowered_unstripped (stripped : List String) {fields : Headers}
    (hlowered : fields.lowered = fields) :
    (unstripped stripped fields).lowered = unstripped stripped fields := by
  rw [Headers.lowered_eq_self_iff] at hlowered ⊢
  intro name hname
  exact hlowered name ((List.filter_sublist.map Prod.fst).subset hname)

theorem values_unstripped (stripped : List String) {fields : Headers}
    (hlowered : fields.lowered = fields) (name : String) :
    (unstripped stripped fields).values name =
      if lower name ∈ stripped then [] else fields.values name := by
  rw [Headers.values, lowered_unstripped stripped hlowered, Headers.values,
    hlowered, unstripped]
  split
  · next hstripped =>
    apply Dictionary.valuesAt_filter_of_drop fun key => lower key ∉ stripped
    simp [lower_lower, hstripped]
  · next hkept =>
    apply Dictionary.valuesAt_filter_of_keep fun key => lower key ∉ stripped
    simp [lower_lower, hkept]

theorem values_upstreamRequest (upstreamBaseUrl path : String)
    (request : Request) (fields : Headers) (name : String) :
    (upstreamRequest upstreamBaseUrl path
        { request with headers := fields.lowered }).headers.values name =
      (if lower name ∈ stripRequestHeaders then []
        else (Dictionary.accumulate id (fun _ value => value)
          (fields.values name)).toList) ++
        if lower name = "x-forwarded-for" then request.client.toList else [] :=
    by
  have hkept := lowered_unstripped stripRequestHeaders
    (Headers.lowered_lowered fields)
  have hforwarded := Headers.lowered_collect id (fun _ value => value) hkept
  have hvalues := Headers.values_collect id (fun _ value => value) hkept name
  rw [values_unstripped _ (Headers.lowered_lowered fields),
    Headers.values_lowered, apply_ite (Dictionary.accumulate id _),
    apply_ite Option.toList] at hvalues
  rw [← Headers.ofItems_eq_collect] at hforwarded hvalues
  simp only [upstreamRequest]
  cases request.client with
  | none =>
      simp only [Option.toList_none, ite_self, List.append_nil]
      exact hvalues
  | some peer =>
      exact (values_set_forwardedFor hforwarded peer name).trans
        (congrArg (· ++ _) hvalues)

/--
The proxy's own entry stands beside that of the client, if there is one; the
names that it strips are never sent.
-/
theorem forwarded_for_unspoofed_iff (upstreamBaseUrl path : String)
    (request : Request) (fields : Headers) (peer : String) :
    Unspoofed peer
        (upstreamRequest upstreamBaseUrl path
          { request with headers := fields.lowered
                         client := some peer }).headers ↔
      fields.values "X-Forwarded-For" = [] := by
  have hvalues := values_upstreamRequest upstreamBaseUrl path
    { request with client := some peer } fields
  constructor
  · rintro ⟨hpeer, -⟩
    rw [hvalues, lower_forwardedFor, if_neg (by decide), if_pos rfl] at hpeer
    simpa [Dictionary.accumulate_eq_none_iff] using hpeer
  · intro habsent
    constructor
    · rw [hvalues, habsent, lower_forwardedFor, if_neg (by decide), if_pos rfl]
      rfl
    · intro field hfield hstripped
      have hstripped' : lower field.1 ∈ stripRequestHeaders := hstripped
      have hother : lower field.1 ≠ "x-forwarded-for" := by
        intro hname
        rw [hname] at hstripped
        exact absurd hstripped (by decide)
      have hvalue := Headers.mem_values_of_mem hfield
      rw [hvalues, if_pos hstripped', if_neg hother] at hvalue
      cases hvalue

def cartRequest : Request :=
  { method := "GET", scopePath := "/cart", url? := some ⟨"/cart", ""⟩
    headers := [], client := none, body := [] }

theorem claimed_address_reaches_upstream :
    ¬ ∀ (upstreamBaseUrl path : String) (request : Request) (fields : Headers)
      (peer : String),
      Unspoofed peer (upstreamRequest upstreamBaseUrl path
        { request with
          headers := fields.lowered, client := some peer }).headers := by
  intro hunspoofed
  obtain ⟨hpeer, -⟩ := hunspoofed "http://upstream" "cart" cartRequest
    [("X-Forwarded-For", "127.0.0.1")] "203.0.113.7"
  revert hpeer
  decide +kernel

/-! ## To the client -/

theorem values_initHeaders {response : Response} {name : String}
    (hgiven : response.headers.values name ≠ []) (body : List UInt8) :
    (initHeaders response body).values name = response.headers.values name := by
  obtain ⟨added, heq, hadded⟩ := initHeaders_eq response body
  have hnone : added.values name = [] := by
    rw [Headers.values_eq_nil_iff, Headers.lowered, Headers.names, List.map_map,
      List.mem_map]
    rintro ⟨field, hfield, hname⟩
    have hname' : lower field.1 = lower name := hname
    have habsent := (hadded field hfield).1
    rw [Headers.get_eq_none_iff, hname', ← Headers.values_eq_nil_iff] at habsent
    exact hgiven habsent
  rw [heq, Headers.values_append, Headers.values_lowered, hnone,
    List.append_nil]

theorem values_relay (statusCode : Nat) (fields : Headers)
    (content : List UInt8) (name : String) :
    (relay ⟨statusCode, fields.joined, content⟩).headers.values name =
      if lower name ∈ hopByHop then []
      else (Dictionary.accumulate id (fun old value => old ++ ", " ++ value)
        (fields.values name)).toList := by
  have hjoined : fields.joined.lowered = fields.joined := by
    rw [Headers.joined_eq_collect]
    exact Headers.lowered_collect _ _ (Headers.lowered_lowered fields)
  have hvalues := Headers.values_collect id (fun _ value => value)
    (lowered_unstripped hopByHop hjoined) name
  rw [values_unstripped _ hjoined, Headers.joined_eq_collect,
    Headers.values_collect _ _ (Headers.lowered_lowered fields),
    Headers.values_lowered, ← Headers.joined_eq_collect] at hvalues
  refine hvalues.trans ?_
  split
  · rfl
  · rw [Dictionary.accumulate_toList]

/-! ## Nothing lost on the way to the upstream -/

def presentedFields (fields : List WireField) : Headers :=
  (WireField.decoded Charset.latin1 fields).lowered

/-- `httpx` encodes all fields as ASCII, or raises and sends nothing. -/
def sentFields (request : UpstreamRequest) : List (String × List UInt8) :=
  if request.headers.encodable 128 then request.headers.octets else []

/-- What `httpx` is to encode is ASCII: the last value of each name, and the
address of the peer. -/
def Sendable (fields : List WireField) (client : Option String) : Prop :=
  (∀ name, lower name ∉ stripRequestHeaders →
    ∀ value ∈ (WireField.values fields name).getLast?,
      Charset.isAscii value = true) ∧
    ∀ peer ∈ client, peer.toList.all (·.toNat < 128) = true

section ToUpstream

variable (upstreamBaseUrl path : String) (request : Request)
variable (fields : List WireField)

def forwardedRequest : UpstreamRequest :=
  upstreamRequest upstreamBaseUrl path
    { request with headers := presentedFields fields }

theorem values_forwardedRequest (name : String) :
    (forwardedRequest upstreamBaseUrl path request fields).headers.values name =
      (if lower name ∈ stripRequestHeaders then []
        else ((WireField.values fields name).getLast?.map
          Charset.latin1).toList) ++
        if lower name = "x-forwarded-for" then request.client.toList else [] :=
    by
  rw [forwardedRequest, presentedFields, values_upstreamRequest,
    Dictionary.accumulate_last, WireField.values_decoded, List.getLast?_map]

theorem isAscii_lower_of_values {name : String}
    (hgiven : (forwardedRequest upstreamBaseUrl path request
      fields).headers.values name ≠ []) :
    (lower name).toList.all (·.toNat < 128) = true := by
  rw [values_forwardedRequest] at hgiven
  by_cases hforwarded : lower name = "x-forwarded-for"
  · rw [hforwarded]
    decide
  · rw [if_neg hforwarded, List.append_nil] at hgiven
    split at hgiven
    · exact absurd rfl hgiven
    · cases hlast : (WireField.values fields name).getLast? with
      | none => simp [hlast] at hgiven
      | some value =>
          obtain ⟨field, -, hname, -⟩ :=
            WireField.mem_values_iff.mp (List.mem_of_getLast? hlast)
          rw [← hname, all_lower_lt_iff (by decide)]
          exact field.name_isAscii

theorem encodable_forwardedRequest_iff :
    (forwardedRequest upstreamBaseUrl path request
        fields).headers.encodable 128 = true ↔
      Sendable fields request.client := by
  rw [encodable_iff (by decide)]
  constructor
  · intro hall
    constructor
    · intro name hname value hvalue
      have hsent := (hall name (Charset.latin1 value) (by
        rw [values_forwardedRequest, if_neg hname, Option.mem_def.mp hvalue]
        simp)).2
      rwa [Charset.latin1, String.toList_ofList, List.all_map] at hsent
    · intro peer hpeer
      refine (hall "X-Forwarded-For" peer ?_).2
      rw [values_forwardedRequest, lower_forwardedFor, if_pos rfl,
        Option.mem_def.mp hpeer]
      simp
  · rintro ⟨hvalues, hpeer⟩ name value hvalue
    refine ⟨isAscii_lower_of_values upstreamBaseUrl path request fields
      (List.ne_nil_of_mem hvalue), ?_⟩
    rw [values_forwardedRequest, List.mem_append] at hvalue
    rcases hvalue with hvalue | hvalue
    · split at hvalue
      · cases hvalue
      · next hname =>
        rw [Option.mem_toList, Option.map_eq_some_iff] at hvalue
        obtain ⟨octets, hoctets, rfl⟩ := hvalue
        rw [Charset.latin1, String.toList_ofList, List.all_map]
        exact hvalues name hname octets hoctets
    · split at hvalue
      · exact hpeer value (Option.mem_toList.mp hvalue)
      · cases hvalue

theorem octetsAt_sentFields {name : String}
    (hname : lower name ∉ "x-forwarded-for" :: stripRequestHeaders) :
    octetsAt (sentFields (forwardedRequest upstreamBaseUrl path request fields))
        name =
      if (forwardedRequest upstreamBaseUrl path request
          fields).headers.encodable 128 then
        (WireField.values fields name).getLast?.toList
      else [] := by
  rw [List.mem_cons, not_or] at hname
  rw [sentFields]
  split
  · rw [octetsAt_octets, values_forwardedRequest, if_neg hname.1,
      if_neg hname.2, List.append_nil]
    cases (WireField.values fields name).getLast? with
    | none => rfl
    | some value => simp [Charset.octets_latin1]
  · rfl

theorem passedOn_request_iff :
    PassedOn ("x-forwarded-for" :: stripRequestHeaders) fields
        (sentFields (forwardedRequest upstreamBaseUrl path request fields)) ↔
      (∀ name, lower name ∉ "x-forwarded-for" :: stripRequestHeaders →
        WireField.values fields name = []) ∨
      Unrepeated ("x-forwarded-for" :: stripRequestHeaders) fields ∧
        Sendable fields request.client := by
  rw [← encodable_forwardedRequest_iff upstreamBaseUrl path]
  constructor
  · intro hpassed
    by_cases hsent : (forwardedRequest upstreamBaseUrl path request
        fields).headers.encodable 128 = true
    · refine .inr ⟨unrepeated_of_passedOn ?_ hpassed, hsent⟩
      intro name hname _
      rw [octetsAt_sentFields _ _ _ _ hname, if_pos hsent]
      exact Option.length_toList_le
    · left
      intro name hname
      rw [List.eq_nil_iff_forall_not_mem]
      intro value hvalue
      have hmem := mem_of_passedOn hpassed hname hvalue
      rw [octetsAt_sentFields _ _ _ _ hname, if_neg hsent] at hmem
      cases hmem
  · rintro (hnone | ⟨hunrepeated, hsent⟩)
    · intro name hname value hvalue
      rw [hnone name hname] at hvalue
      cases hvalue
    · apply passedOn_of_eq
      intro name hname hgiven
      obtain ⟨value, hvalue⟩ := List.exists_mem_of_ne_nil _ hgiven
      rw [octetsAt_sentFields _ _ _ _ hname, if_pos hsent,
        eq_singleton_of_unrepeated hunrepeated hname hvalue]
      rfl

end ToUpstream

/-! ## Nothing lost on the way to the client -/

def presentedItems (fields : List WireField) : Headers :=
  (WireField.decoded (WireField.encoding fields) fields).joined

def relayedFields (response : UpstreamResponse) : List (String × List UInt8) :=
  if (relay response).encodes then
    (initHeaders (relay response) response.content).octets
  else []

/-- What would be read as UTF-8 and written as Latin-1 is ASCII. -/
def Relayable (stripped : List String) (fields : List WireField) : Prop :=
  WireField.IsUtf8 fields → ∀ name, lower name ∉ stripped →
    ∀ value ∈ WireField.values fields name, Charset.isAscii value = true

section ToClient

variable (statusCode : Nat) (fields : List WireField) (content : List UInt8)

def relayedResponse : UpstreamResponse :=
  { statusCode := statusCode, headers := presentedItems fields
    content := content }

theorem values_relayedResponse {name : String} (hname : lower name ∉ hopByHop) :
    (relay (relayedResponse statusCode fields content)).headers.values name =
      (Dictionary.accumulate id (fun old value => old ++ ", " ++ value)
        ((WireField.values fields name).map
          (WireField.encoding fields))).toList := by
  rw [relayedResponse, presentedItems, values_relay, if_neg hname,
    WireField.values_decoded]

theorem octetsAt_relayedFields {name : String} (hname : lower name ∉ hopByHop)
    (hgiven : WireField.values fields name ≠ []) :
    octetsAt (relayedFields (relayedResponse statusCode fields content)) name =
      if (relay (relayedResponse statusCode fields content)).encodes then
        ((Dictionary.accumulate id (fun old value => old ++ ", " ++ value)
          ((WireField.values fields name).map
            (WireField.encoding fields))).map
              fun text => text.toList.map Char.toUInt8).toList
      else [] := by
  have hvalues := values_relayedResponse statusCode fields content hname
  rw [relayedFields]
  split
  · rw [octetsAt_octets, values_initHeaders, hvalues]
    · cases Dictionary.accumulate id (fun old value => old ++ ", " ++ value)
        ((WireField.values fields name).map (WireField.encoding fields)) <;> rfl
    · rw [hvalues, ne_eq, Option.toList_eq_nil_iff,
        Dictionary.accumulate_eq_none_iff, List.map_eq_nil_iff]
      exact hgiven
  · rfl

theorem encoding_of_relayable (hrelayable : Relayable hopByHop fields)
    {name : String} (hname : lower name ∉ hopByHop) {value : List UInt8}
    (hvalue : value ∈ WireField.values fields name) :
    WireField.encoding fields value = Charset.latin1 value := by
  have hread := WireField.encoding_eq hvalue
  split at hread
  · next hutf8 =>
    have hascii := hrelayable hutf8 name hname value hvalue
    rw [Charset.decodeUtf8_of_isAscii hascii, Option.some_inj] at hread
    exact hread.symm
  · exact hread

theorem values_relayed_of_passable (hunrepeated : Unrepeated hopByHop fields)
    (hrelayable : Relayable hopByHop fields) {name : String}
    (hname : lower name ∉ hopByHop) {value : List UInt8}
    (hvalue : value ∈ WireField.values fields name) :
    (relay (relayedResponse statusCode fields content)).headers.values name =
      [Charset.latin1 value] := by
  rw [values_relayedResponse _ _ _ hname,
    eq_singleton_of_unrepeated hunrepeated hname hvalue, List.map_singleton,
    encoding_of_relayable fields hrelayable hname hvalue]
  rfl

theorem encodes_of_passable (hunrepeated : Unrepeated hopByHop fields)
    (hrelayable : Relayable hopByHop fields) :
    (relay (relayedResponse statusCode fields content)).encodes = true := by
  rw [Response.encodes, encodable_iff (by decide)]
  intro name text htext
  by_cases hname : lower name ∈ hopByHop
  · rw [relayedResponse, presentedItems, values_relay, if_pos hname] at htext
    cases htext
  · have hgiven : WireField.values fields name ≠ [] := by
      intro hnone
      rw [values_relayedResponse _ _ _ hname, hnone] at htext
      cases htext
    obtain ⟨value, hvalue⟩ := List.exists_mem_of_ne_nil _ hgiven
    rw [values_relayed_of_passable _ _ _ hunrepeated hrelayable hname hvalue,
      List.mem_singleton] at htext
    obtain ⟨field, -, hfield, -⟩ := WireField.mem_values_iff.mp hvalue
    subst htext
    constructor
    · rw [← hfield, all_lower_lt_iff (by decide), List.all_eq_true]
      intro c hc
      have := of_decide_eq_true (List.all_eq_true.mp field.name_isAscii c hc)
      exact decide_eq_true (by omega)
    · rw [Charset.latin1, String.toList_ofList, List.all_map, List.all_eq_true]
      intro octet _
      exact decide_eq_true octet.toNat_lt

theorem isAscii_of_passedOn
    (hpassed : PassedOn hopByHop fields
      (relayedFields (relayedResponse statusCode fields content)))
    (hunrepeated : Unrepeated hopByHop fields)
    (hutf8 : WireField.IsUtf8 fields) {name : String}
    (hname : lower name ∉ hopByHop) {value : List UInt8}
    (hvalue : value ∈ WireField.values fields name) :
    Charset.isAscii value = true := by
  have honly := eq_singleton_of_unrepeated hunrepeated hname hvalue
  have hmem := mem_of_passedOn hpassed hname hvalue
  rw [octetsAt_relayedFields _ _ _ hname (List.ne_nil_of_mem hvalue),
    honly] at hmem
  split at hmem
  · next hencodes =>
    have hread := WireField.encoding_eq hvalue
    rw [if_pos hutf8] at hread
    have hoctets : (WireField.encoding fields value).toList.map Char.toUInt8 =
        value := by
      simpa [Dictionary.accumulate, eq_comm] using hmem
    rw [Response.encodes, encodable_iff (by decide)] at hencodes
    have hbelow := (hencodes name (WireField.encoding fields value) (by
      rw [values_relayedResponse _ _ _ hname, honly]
      exact List.mem_singleton_self _)).2
    refine (Charset.encode_decodeUtf8_iff hread (by decide : 128 ≤ 256)).mp ?_
    rw [Charset.encode, if_pos hbelow, hoctets]
  · cases hmem

theorem passedOn_response_iff :
    PassedOn hopByHop fields
        (relayedFields (relayedResponse statusCode fields content)) ↔
      Unrepeated hopByHop fields ∧ Relayable hopByHop fields := by
  constructor
  · intro hpassed
    have hunrepeated : Unrepeated hopByHop fields := by
      refine unrepeated_of_passedOn ?_ hpassed
      intro name hname hgiven
      rw [octetsAt_relayedFields _ _ _ hname hgiven]
      split
      · exact Option.length_toList_le
      · exact Nat.zero_le _
    exact ⟨hunrepeated, fun hutf8 _ hname _ hvalue =>
      isAscii_of_passedOn _ _ _ hpassed hunrepeated hutf8 hname hvalue⟩
  · rintro ⟨hunrepeated, hrelayable⟩
    apply passedOn_of_eq
    intro name hname hgiven
    obtain ⟨value, hvalue⟩ := List.exists_mem_of_ne_nil _ hgiven
    rw [relayedFields,
      if_pos (encodes_of_passable _ _ _ hunrepeated hrelayable),
      octetsAt_octets, values_initHeaders,
      values_relayed_of_passable _ _ _ hunrepeated hrelayable hname hvalue,
      eq_singleton_of_unrepeated hunrepeated hname hvalue, List.map_singleton,
      Charset.octets_latin1]
    rw [values_relayed_of_passable _ _ _ hunrepeated hrelayable hname hvalue]
    exact List.cons_ne_nil _ _

end ToClient

/-! ## Nothing lost -/

def idCookie : WireField :=
  ⟨"Set-Cookie", "id=1".toList.map Char.toUInt8, by decide⟩

def langCookie : WireField :=
  ⟨"Set-Cookie", "lang=en".toList.map Char.toUInt8, by decide⟩

end RateLimitedGateway.Routes
