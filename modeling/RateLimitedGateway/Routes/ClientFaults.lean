import RateLimitedGateway.Infra.CircuitBreaker.OpeningLaw
import RateLimitedGateway.Routes.Proxy

/-!
# Faults of clients

Requests are proxied in any interleaving.  The client library refuses some of
them before it sends anything, it raises for an answer that it cannot decode,
and the breaker counts both like any other exception.  While every request that
is sent is answered, the breaker therefore stays closed exactly as long as too
few of these faults follow each other.
-/

namespace RateLimitedGateway.Routes

open RateLimitedGateway.Foundation RateLimitedGateway.Infra

inductive ProxyEvent where
  | arrive (path : String) (request : Http.Request) (now : ℚ)
  | finish (id : Nat) (exchange : Exchange) (now : ℚ)
  deriving DecidableEq, Repr

abbrev ProxyCalls := Calls UpstreamRequest

abbrev ProxyEntry := Entry ProxyCalls ProxyEvent
  (CallOutcome HttpxError UpstreamResponse)

def sentBy (calls : ProxyCalls) (id : Nat) : Option UpstreamRequest :=
  (calls.running.find? fun call => call.1 = id).map Prod.snd

namespace ProxyRoute

variable (proxy : ProxyRoute)

def callEvent (calls : ProxyCalls) : ProxyEvent →
    Option (CallEvent HttpxError UpstreamResponse UpstreamRequest)
  | .arrive path request now =>
      some (.arrive (upstreamRequest proxy.upstreamBaseUrl path request) now)
  | .finish id exchange now =>
      (sentBy calls id).map fun sent =>
        .finish id (doUpstreamRequest proxy.httpx sent exchange) now

def step : Machine ProxyCalls ProxyEvent
    (CallOutcome HttpxError UpstreamResponse) :=
  fun calls event =>
    match proxy.callEvent calls event with
    | some called => proxy.breaker.step calls called
    | none => none

def Refused (entry : ProxyEntry) : Bool :=
  match entry.input with
  | .arrive _ _ _ => false
  | .finish id _ _ =>
      (sentBy entry.before id).any fun sent => (proxy.httpx sent).isSome

def Answered (entry : ProxyEntry) : Bool :=
  match entry.input with
  | .finish id (.answered _) _ =>
      (sentBy entry.before id).any fun sent => (proxy.httpx sent).isNone
  | _ => false

def Lost (entry : ProxyEntry) : Bool :=
  match entry.input with
  | .finish id (.lost _) _ =>
      (sentBy entry.before id).any fun sent => (proxy.httpx sent).isNone
  | _ => false

/-- The call that ends was answered with a body that does not decode. -/
def Undecoded (entry : ProxyEntry) : Bool :=
  match entry.input with
  | .finish id (.undecodable _) _ =>
      (sentBy entry.before id).any fun sent => (proxy.httpx sent).isNone
  | _ => false

def Faulty (entry : ProxyEntry) : Bool :=
  proxy.Refused entry || proxy.Undecoded entry

def faultsInARow : List ProxyEntry → Nat
  | [] => 0
  | entry :: past =>
      if proxy.Answered entry then 0
      else if proxy.Faulty entry then faultsInARow past + 1
      else faultsInARow past

/-- No fault of the history completes `threshold` of them in a row. -/
def FewFaults : List ProxyEntry → Prop
  | [] => True
  | entry :: past =>
      (proxy.Faulty entry = true →
        (proxy.faultsInARow (entry :: past) : Int) <
          proxy.breaker.threshold) ∧
      FewFaults past

instance decidableFewFaults : (history : List ProxyEntry) →
    Decidable (proxy.FewFaults history)
  | [] => .isTrue trivial
  | _ :: past =>
      have := decidableFewFaults past
      inferInstanceAs (Decidable (_ ∧ _))

/-! ## One step from the closed state -/

variable {proxy}

theorem step_of_closed {before after : ProxyCalls} {event : ProxyEvent}
    {outcome : CallOutcome HttpxError UpstreamResponse}
    (hclosed : before.circuit.state = .closed)
    (hanswered : proxy.Lost ⟨before, event, outcome, after⟩ = false)
    (h : proxy.step before event = some (outcome, after)) :
    (proxy.Answered ⟨before, event, outcome, after⟩ = true ∧
      proxy.Faulty ⟨before, event, outcome, after⟩ = false ∧
      after.circuit = { before.circuit with failures := 0 }) ∨
    (proxy.Answered ⟨before, event, outcome, after⟩ = false ∧
      proxy.Faulty ⟨before, event, outcome, after⟩ = true ∧
      ∃ now, after.circuit = proxy.breaker.onFailure before.circuit now) ∨
    (proxy.Answered ⟨before, event, outcome, after⟩ = false ∧
      proxy.Faulty ⟨before, event, outcome, after⟩ = false ∧
      after.circuit = before.circuit) := by
  cases event with
  | arrive path request now =>
      refine .inr (.inr ⟨rfl, rfl, ?_⟩)
      simp only [step, callEvent] at h
      obtain ⟨_, _, circuit, _, _, henter, _, rfl⟩ |
        ⟨_, _, _, _, _, henter, _, rfl⟩ | ⟨_, _, _, hevent, _, _, _, _⟩ :=
          CircuitBreaker.step_cases h
      · rw [CircuitBreaker.enter_of_ne_opened (by simp [hclosed])] at henter
        exact (Except.ok.inj henter).symm
      · rfl
      · cases hevent
  | finish id exchange now =>
      cases hsent : sentBy before id with
      | none => simp [step, callEvent, hsent] at h
      | some sent =>
          have hleave : after.circuit = proxy.breaker.leave before.circuit
              (doUpstreamRequest proxy.httpx sent exchange) now := by
            simp only [step, callEvent, hsent, Option.map_some] at h
            obtain ⟨_, _, _, hevent, _, _, _, _⟩ |
              ⟨_, _, _, hevent, _, _, _, _⟩ | ⟨_, _, _, hevent, _, _, _, rfl⟩ :=
                CircuitBreaker.step_cases h
            · cases hevent
            · cases hevent
            · cases hevent
              rfl
          rw [hleave]
          cases hhttpx : proxy.httpx sent with
          | some exc =>
              refine .inr (.inl ⟨?_, ?_, now, ?_⟩)
              · cases exchange <;> simp [Answered, hsent, hhttpx]
              · simp [Faulty, Refused, hsent, hhttpx]
              · simp [doUpstreamRequest, hhttpx, CircuitBreaker.leave]
          | none =>
              cases exchange with
              | answered response =>
                  refine .inl ⟨?_, ?_, ?_⟩
                  · simp [Answered, hsent, hhttpx]
                  · simp [Faulty, Refused, Undecoded, hsent, hhttpx]
                  · simp [doUpstreamRequest, hhttpx, CircuitBreaker.leave,
                      CircuitBreaker.onSuccess, hclosed]
              | undecodable text =>
                  refine .inr (.inl ⟨?_, ?_, now, ?_⟩)
                  · simp [Answered]
                  · simp [Faulty, Undecoded, hsent, hhttpx]
                  · simp [doUpstreamRequest, hhttpx, CircuitBreaker.leave]
              | lost exc => simp [Lost, hsent, hhttpx] at hanswered
              | abandoned =>
                  refine .inr (.inr ⟨?_, ?_, ?_⟩)
                  · simp [Answered]
                  · simp [Faulty, Refused, Undecoded, hsent, hhttpx]
                  · simp [doUpstreamRequest, hhttpx, CircuitBreaker.leave]

/-! ## Whole runs -/

theorem failures_of_closed_history {clock : ℚ} {last : ProxyCalls}
    {history : List ProxyEntry}
    (h : History proxy.step (Calls.fresh clock) history last)
    (hanswered : ∀ entry ∈ history, proxy.Lost entry = false)
    (hclosed : ∀ entry ∈ history, entry.after.circuit.state = .closed) :
    last.circuit.state = .closed ∧
      last.circuit.failures = proxy.faultsInARow history := by
  induction h with
  | start => exact ⟨rfl, rfl⟩
  | @next past before after event outcome hpast hstep ih =>
      obtain ⟨hstate, hcount⟩ := ih
        (fun entry hmem => hanswered entry (List.mem_cons_of_mem _ hmem))
        (fun entry hmem => hclosed entry (List.mem_cons_of_mem _ hmem))
      refine ⟨hclosed _ List.mem_cons_self, ?_⟩
      rcases step_of_closed hstate (hanswered _ List.mem_cons_self) hstep with
        ⟨hanswer, hfault, hcircuit⟩ | ⟨hanswer, hfault, now, hcircuit⟩ |
        ⟨hanswer, hfault, hcircuit⟩
      · simp [faultsInARow, hanswer, hcircuit]
      · simp [faultsInARow, hanswer, hfault, hcircuit, hcount]
      · simp [faultsInARow, hanswer, hfault, hcircuit, hcount]

def printableOnly : Httpx :=
  fun sent =>
    if sent.url.toList.any fun char => char.toNat < 32 ∨ char.toNat = 127 then
      some (.otherError "Invalid non-printable ASCII character in URL")
    else none

def strictHttpbin : ProxyRoute :=
  { breaker := upstreamBreaker
    upstreamBaseUrl := "https://httpbin.org"
    httpx := printableOnly }

def visitOf (path : String) (exchange : Exchange) (id : Nat) :
    List ProxyEvent :=
  [.arrive path
      { method := "GET", scopePath := "/" ++ path,
        url? := some ⟨"/" ++ path, ""⟩, headers := [("host", "localhost")],
        client := some "127.0.0.1", body := [] }
      id,
    .finish id exchange id]

def proxied (visits : List (String × Exchange)) :
    List ProxyEntry × ProxyCalls :=
  played strictHttpbin.step (Calls.fresh 0)
    (visits.zipIdx.flatMap fun visit =>
      visitOf visit.1.1 visit.1.2 visit.2)

def unprintable : String × Exchange := ("\x01", .answered ⟨200, [], []⟩)

def miscoded : String × Exchange :=
  ("response-headers", .undecodable "Error -3 while decompressing data")

def harmless : String × Exchange := ("get", .answered ⟨200, [], []⟩)

def fiveFaults : List (String × Exchange) :=
  [unprintable, miscoded, unprintable, miscoded, unprintable]

end ProxyRoute

end RateLimitedGateway.Routes
