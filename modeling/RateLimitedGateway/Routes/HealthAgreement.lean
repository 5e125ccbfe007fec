import RateLimitedGateway.Infra.CircuitBreaker.OpeningLaw
import RateLimitedGateway.Routes.Proxy

/-!
# What the breaker and the health tracker call a failure

Requests are proxied one after another.  The tracker takes a response with a
status of 500 or more for a failure; the breaker sees that the call returned.
The two agree about a run of failures exactly as long as all of them raised.
-/

namespace RateLimitedGateway.Routes

open RateLimitedGateway.Foundation RateLimitedGateway.Infra

structure Standing where
  circuit : Circuit
  clock : ℚ
  deriving DecidableEq, Repr

abbrev VisitEntry := Entry Standing Visit Conclusion

namespace ProxyRoute

variable (proxy : ProxyRoute)

def serve : Machine Standing Visit Conclusion :=
  fun standing visit =>
    if standing.clock ≤ visit.arrival ∧ visit.arrival ≤ visit.finish then
      let run := proxy.run standing.circuit visit
      some (run.1, ⟨run.2, visit.finish⟩)
    else none

def Reaches (standing : Standing) (visit : Visit) : Prop :=
  (proxy.breaker.enter standing.circuit visit.arrival).isOk = true ∧
    proxy.httpx (proxy.sent visit) = none

end ProxyRoute

namespace Exchange

def IsServerError : Exchange → Prop
  | .answered response => 500 ≤ response.statusCode
  | _ => False

def Fails : Exchange → Prop
  | .answered response => 500 ≤ response.statusCode
  | .undecodable _ => True
  | .lost .timeoutException => True
  | .lost (.requestError _) => True
  | .lost (.otherError _) => False
  | .abandoned => False

end Exchange

namespace ProxyRoute

variable {proxy : ProxyRoute} {standing after : Standing} {visit : Visit}
variable {conclusion : Conclusion}

theorem ending_of_reaches (hreaches : proxy.Reaches standing visit) :
    proxy.ending visit =
      match visit.exchange with
      | .answered response => .returned response
      | .undecodable text => .raised (.requestError text)
      | .lost exc => .raised exc
      | .abandoned => .cancelled := by
  unfold ending doUpstreamRequest
  cases visit.exchange <;> simp only [hreaches.2]

theorem serve_eq_some
    (h : proxy.serve standing visit = some (conclusion, after)) :
    standing.clock ≤ visit.arrival ∧ visit.arrival ≤ visit.finish ∧
      conclusion = conclude (proxy.breaker.call standing.circuit visit.arrival
        (proxy.ending visit) visit.finish).1 ∧
      after = ⟨(proxy.breaker.call standing.circuit visit.arrival
        (proxy.ending visit) visit.finish).2, visit.finish⟩ := by
  simp only [serve] at h
  by_cases hclock :
      standing.clock ≤ visit.arrival ∧ visit.arrival ≤ visit.finish
  · rw [if_pos hclock] at h
    cases h
    exact ⟨hclock.1, hclock.2, rfl, rfl⟩
  · rw [if_neg hclock] at h
    cases h

theorem serve_of_reaches (hreaches : proxy.Reaches standing visit)
    (h : proxy.serve standing visit = some (conclusion, after)) :
    ∃ entered : Circuit, entered.state ≠ .opened ∧
      entered.failures = standing.circuit.failures ∧
      conclusion = conclude (.ok (proxy.ending visit)) ∧
      after.circuit = proxy.breaker.leave entered (proxy.ending visit)
        visit.finish := by
  obtain ⟨-, -, rfl, rfl⟩ := serve_eq_some h
  cases henter : proxy.breaker.enter standing.circuit visit.arrival with
  | error exc => simp [Reaches, henter, Except.isOk, Except.toBool] at hreaches
  | ok entered =>
      have hcall : proxy.breaker.call standing.circuit visit.arrival
          (proxy.ending visit) visit.finish =
            (.ok (proxy.ending visit), proxy.breaker.leave entered
              (proxy.ending visit) visit.finish) := by
        unfold CircuitBreaker.call
        rw [henter]
      rw [hcall]
      refine ⟨entered, ?_, ?_, rfl, rfl⟩
      · rcases CircuitBreaker.enter_eq_ok henter with
          ⟨hstate, rfl⟩ | ⟨_, _, rfl⟩
        · exact hstate
        · simp
      · rcases CircuitBreaker.enter_eq_ok henter with ⟨_, rfl⟩ | ⟨_, _, rfl⟩
        · rfl
        · rfl

theorem recorded_iff_of_reaches (hreaches : proxy.Reaches standing visit)
    (h : proxy.serve standing visit = some (conclusion, after)) :
    conclusion.recorded = some false ↔ visit.exchange.Fails := by
  obtain ⟨entered, -, -, rfl, -⟩ := serve_of_reaches hreaches h
  rw [ending_of_reaches hreaches]
  cases visit.exchange with
  | answered response => simp [conclude, Exchange.Fails]
  | undecodable text => simp [conclude, Exchange.Fails]
  | lost exc => cases exc <;> simp [conclude, Exchange.Fails]
  | abandoned => simp [conclude, Exchange.Fails]

theorem failures_of_reaches (hreaches : proxy.Reaches standing visit)
    (hfails : visit.exchange.Fails)
    (h : proxy.serve standing visit = some (conclusion, after)) :
    (visit.exchange.IsServerError ∧ after.circuit.failures = 0) ∨
      (¬ visit.exchange.IsServerError ∧
        after.circuit.failures = standing.circuit.failures + 1) := by
  obtain ⟨entered, hstate, hfailures, -, hafter⟩ := serve_of_reaches hreaches h
  rw [hafter, ending_of_reaches hreaches, ← hfailures]
  cases hexchange : visit.exchange with
  | answered response =>
      rw [hexchange] at hfails
      left
      refine ⟨hfails, ?_⟩
      simp only [CircuitBreaker.leave]
      rw [CircuitBreaker.onSuccess_of_ne_opened hstate]
  | undecodable text =>
      right
      simp [CircuitBreaker.leave, Exchange.IsServerError]
  | lost exc =>
      right
      simp [CircuitBreaker.leave, Exchange.IsServerError]
  | abandoned =>
      rw [hexchange] at hfails
      exact hfails.elim

theorem failures_of_history {first last : Standing} {history : List VisitEntry}
    (h : History proxy.serve first history last)
    (hfail : ∀ entry ∈ history,
      proxy.Reaches entry.before entry.input ∧ entry.input.exchange.Fails) :
    ((∃ entry ∈ history, entry.input.exchange.IsServerError) ∧
      last.circuit.failures < history.length) ∨
    ((∀ entry ∈ history, ¬ entry.input.exchange.IsServerError) ∧
      last.circuit.failures = first.circuit.failures + history.length) := by
  induction h with
  | start => exact .inr ⟨by simp, rfl⟩
  | @next past before after visit conclusion _ hstep ih =>
      obtain ⟨hreaches, hfails⟩ := hfail _ List.mem_cons_self
      have hpast := ih fun entry hmem =>
        hfail entry (List.mem_cons_of_mem _ hmem)
      rcases failures_of_reaches hreaches hfails hstep with
        ⟨herror, hzero⟩ | ⟨hraised, hsucc⟩
      · left
        refine ⟨⟨_, List.mem_cons_self, herror⟩, ?_⟩
        simp [hzero]
      · rw [hsucc]
        rcases hpast with ⟨⟨entry, hmem, herror⟩, hbelow⟩ | ⟨hall, hcount⟩
        · left
          refine ⟨⟨entry, List.mem_cons_of_mem _ hmem, herror⟩, ?_⟩
          simp only [List.length_cons]
          omega
        · right
          refine ⟨?_, ?_⟩
          · intro entry hmem
            rcases List.mem_cons.mp hmem with rfl | hmem
            · exact hraised
            · exact hall entry hmem
          · simp only [List.length_cons]
            omega

theorem calls_of_history {clock : ℚ} {last : Standing}
    {history : List VisitEntry}
    (h : History proxy.serve ⟨CircuitBreaker.initial, clock⟩ history last) :
    ∃ (steps : List (CallEntry HttpxError UpstreamResponse UpstreamRequest))
      (calls : Calls UpstreamRequest),
      History proxy.breaker.step (Calls.fresh clock) steps calls ∧
        calls.circuit = last.circuit ∧ calls.clock ≤ last.clock := by
  induction h with
  | start => exact ⟨[], Calls.fresh clock, .start, rfl, le_rfl⟩
  | @next past before after visit conclusion _ hstep ih =>
      obtain ⟨steps, calls, hsteps, hcircuit, hclock⟩ := ih
      obtain ⟨harrival, hfinish, -, rfl⟩ := serve_eq_some hstep
      obtain ⟨called, calls', hcalled, hcircuit', hclock', -⟩ :=
        Calls.history_of_call proxy.breaker calls (proxy.sent visit)
          (proxy.ending visit) (hclock.trans harrival) hfinish
      rw [hcircuit] at hcircuit'
      exact ⟨called ++ steps, calls', History.append_iff.mpr
        ⟨calls, hsteps, hcalled⟩, hcircuit', hclock'⟩

/--
After as many requests in a row as the threshold, all sent upstream and all
recorded as failures, the breaker is out of the closed state exactly when none
of them is a response of the upstream.
-/
theorem health_agreement_iff {clock : ℚ} {last : Standing}
    {recent older : List VisitEntry}
    (h : History proxy.serve ⟨CircuitBreaker.initial, clock⟩ (recent ++ older)
      last)
    (hrecent : recent ≠ [])
    (hlength : (recent.length : Int) = proxy.breaker.threshold) :
    ((∀ entry ∈ recent, proxy.Reaches entry.before entry.input ∧
        entry.output.recorded = some false) →
      last.circuit.state ≠ .closed) ↔
    ((∀ entry ∈ recent, proxy.Reaches entry.before entry.input ∧
        entry.input.exchange.Fails) →
      ∀ entry ∈ recent, ¬ entry.input.exchange.IsServerError) := by
  have hpositive : 0 < recent.length := List.length_pos_of_ne_nil hrecent
  have hthreshold : 1 ≤ proxy.breaker.threshold := by omega
  obtain ⟨steps, calls, hsteps, hcircuit, -⟩ := calls_of_history h
  have hclosed := CircuitBreaker.closed_iff_of_history hthreshold hsteps
  rw [hcircuit, ← hlength, Nat.cast_lt] at hclosed
  have hrecorded : (∀ entry ∈ recent, proxy.Reaches entry.before entry.input ∧
        entry.output.recorded = some false) ↔
      ∀ entry ∈ recent, proxy.Reaches entry.before entry.input ∧
        entry.input.exchange.Fails := by
    apply forall₂_congr
    intro entry hmem
    obtain ⟨past, -, hstep⟩ := h.of_mem (List.mem_append_left older hmem)
    exact and_congr_right fun hreaches => recorded_iff_of_reaches hreaches hstep
  rw [hrecorded]
  apply imp_congr_right
  intro hfail
  obtain ⟨middle, -, hlater⟩ := History.append_iff.mp h
  rw [Ne, hclosed]
  rcases failures_of_history hlater hfail with
    ⟨⟨entry, hmem, herror⟩, hbelow⟩ | ⟨hraised, hcount⟩
  · exact iff_of_false (not_not.mpr hbelow) fun hnone => hnone entry hmem herror
  · exact iff_of_true (by omega) hraised

/-! ## Five failures in a row -/

instance (standing : Standing) (visit : Visit) :
    Decidable (proxy.Reaches standing visit) :=
  inferInstanceAs (Decidable (_ ∧ _))

instance (exchange : Exchange) : Decidable exchange.IsServerError :=
  match exchange with
  | .answered response => Nat.decLe 500 response.statusCode
  | .undecodable _ => .isFalse id
  | .lost _ => .isFalse id
  | .abandoned => .isFalse id

def httpbin : ProxyRoute :=
  { breaker := upstreamBreaker
    upstreamBaseUrl := "https://httpbin.org"
    httpx := fun _ => none }

def fiveTimes (exchange : Exchange) : List Visit :=
  (List.range 5).map fun second =>
    { path := "status/500"
      request :=
        { method := "GET"
          scopePath := "/status/500"
          url? := some ⟨"/status/500", ""⟩
          headers := [("host", "localhost"), ("authorization", "Bearer t")]
          client := some "127.0.0.1"
          body := [] }
      arrival := second
      exchange := exchange
      finish := second }

def visited (exchange : Exchange) : List VisitEntry × Standing :=
  played httpbin.serve ⟨CircuitBreaker.initial, 0⟩ (fiveTimes exchange)

theorem history_visited {exchange : Exchange}
    (h : (replay httpbin.serve [] ⟨CircuitBreaker.initial, 0⟩
      (fiveTimes exchange)).isSome = true) :
    History httpbin.serve ⟨CircuitBreaker.initial, 0⟩
      ((visited exchange).1 ++ []) (visited exchange).2 := by
  rw [List.append_nil]
  exact history_played h

theorem health_agreement_iff_timeouts :
    (visited (.lost .timeoutException)).2.circuit.state ≠ .closed :=
  (health_agreement_iff (history_visited (by decide +kernel))
    (by decide +kernel) (by decide +kernel)).mpr
      (fun _ => by decide +kernel) (by decide +kernel)

theorem server_errors_leave_closed :
    ¬ ∀ (proxy : ProxyRoute) (clock : ℚ) (last : Standing)
      (recent older : List VisitEntry),
      History proxy.serve ⟨CircuitBreaker.initial, clock⟩ (recent ++ older)
        last →
      recent ≠ [] → (recent.length : Int) = proxy.breaker.threshold →
      (∀ entry ∈ recent, proxy.Reaches entry.before entry.input ∧
        entry.output.recorded = some false) →
      last.circuit.state ≠ .closed := by
  intro hagree
  have hrun : History httpbin.serve ⟨CircuitBreaker.initial, 0⟩
      ((visited (.answered ⟨500, [], []⟩)).1 ++ [])
      (visited (.answered ⟨500, [], []⟩)).2 :=
    history_visited (by decide +kernel)
  exact hagree _ _ _ _ _ hrun (by decide +kernel) (by decide +kernel)
    (by decide +kernel) (by decide +kernel)

end ProxyRoute

end RateLimitedGateway.Routes
