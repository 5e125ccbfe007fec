import RateLimitedGateway.Main.Fleet
import RateLimitedGateway.Services.LimiterOnRedis

/-!
# What the fleet lets through

Each request is served as if it were alone; only the answers that it gets come
from a state that all requests share.  In front of a breaker, each call of a
user's request has been paid for by a check of that user, so the limiter bounds
what the fleet sends to the upstream, whatever the interleaving.
-/

namespace RateLimitedGateway.Routes

theorem commitUpsert_customLimit {userId : String}
    {existing row after : Option UserQuotaOverride}
    {body : QuotaOverrideCreate} {createdAt : ℚ} {P : Int → Prop}
    (hbody : P body.customLimit)
    (hrow : ∀ found, row = some found → P found.customLimit)
    (hcommit : commitUpsert userId existing body createdAt row = .ok after) :
    ∀ found, after = some found → P found.customLimit := by
  unfold commitUpsert at hcommit
  split at hcommit
  · cases existing with
    | none =>
        cases row with
        | none =>
            rintro found rfl
            cases hcommit
            exact hbody
        | some found => cases hcommit
    | some loaded =>
        simp only [] at hcommit
        split at hcommit
        · cases hcommit
          exact hrow
        · cases row with
          | none => cases hcommit
          | some found =>
              rintro _ rfl
              cases hcommit
              simp only [UserQuotaOverride.update]
              split
              · exact hrow found rfl
              · exact hbody
  · cases hcommit

end RateLimitedGateway.Routes

namespace RateLimitedGateway.Main

open RateLimitedGateway.Core RateLimitedGateway.Foundation
open RateLimitedGateway.Http RateLimitedGateway.Infra
open RateLimitedGateway.Middleware RateLimitedGateway.Routes
open RateLimitedGateway.Services
open Coroutine (Contract Keeps asking keeps_await keeps_pure)
open Question (ask)

variable {jobs : ℕ → Job} {shared : Shared} {last : Fleet}
variable {history : List FleetEntry}

/-! ## One request among many -/

/--
A request that the fleet has served, with whatever other requests have done
between its turns, is served as by the application of its worker alone.
-/
theorem served_as_alone
    (h : History (fleetMachine jobs) (fleetStart jobs shared) history last)
    {id : ℕ} {served : Served} (hserved : last.process id = .done served) :
    ∃ answers, served =
      ((jobs id).app.answering answers).serve (jobs id).request := by
  have hdone := (promised_of_history h).2 id
  rw [hserved] at hdone
  exact hdone

theorem served_as_alone_twoVisits :
    ∃ served answers, twoVisits.2.process 0 = .done served ∧
      served = (aliceJob.app.answering answers).serve aliceGet := by
  obtain ⟨served, hserved⟩ := twoVisits_done
  obtain ⟨answers, halone⟩ := served_as_alone twoVisits_history hserved
  exact ⟨served, answers, hserved, halone⟩

/-! ## The limits that a user is checked with -/

theorem effectiveLimit_le {baseLimit : Int} {bound : ℕ}
    (hbase : effectiveLimit baseLimit 1 ≤ bound) (counts : Option (ℕ × ℕ)) :
    effectiveLimit baseLimit (getHealthFactor counts) ≤ bound := by
  rcases getHealthFactor_eq_or counts with hfactor | hfactor
  · rwa [hfactor]
  · rw [hfactor]
    exact (effectiveLimit_half_le baseLimit).trans hbase

def limiting (userId : String) (bound : ℕ) : Contract Question.Answer Unit where
  allows _ question :=
    match question with
    | .check user baseLimit healthFactor =>
        user = userId → effectiveLimit baseLimit healthFactor ≤ bound
    | .commitQuota user _ body => insertedId user = userId →
        effectiveLimit body.customLimit 1 ≤ bound
    | _ => True
  promises question reply :=
    match question, reply with
    | .selectOverride user, .ok (some row) =>
        user = userId → effectiveLimit row.customLimit 1 ≤ bound
    | _, _ => True
  remember _ _ := ()

structure Job.Limited (job : Job) (userId : String) (bound : ℕ) : Prop where
  tier : ∀ claims, job.app.acceptedClaims job.request = some claims →
    claims.sub = userId →
      effectiveLimit (tierDefault job.app.settings claims.tier) 1 ≤ bound
  body : ∀ body parameter, job.front.readBody job.request = some body →
    findRoute routes job.request.method job.request.scopePath =
      .found .upsertQuota parameter → insertedId parameter = userId →
        effectiveLimit body.customLimit 1 ≤ bound

section Limited

variable {job : Job} {userId : String} {bound : ℕ}

theorem limiting_handledTask (hlimited : job.Limited userId bound)
    (state : RequestState) :
    Keeps (limiting userId bound) (fun _ _ => True)
      (job.app.handledTask job.front job.request state) () := by
  refine job.app.keeps_handledTask_of job.front job.request trivial ?_
  intro endpoint parameter hroute
  cases endpoint with
  | proxy =>
      have hrecording : ∀ conclusion, Keeps (limiting userId bound)
          (fun _ _ => True) (afterRecordingTask conclusion) () := by
        intro conclusion
        refine ((afterRecordingTask_asks conclusion).of_asking ?_).weaken
          fun _ _ _ => trivial
        rintro question ⟨success, rfl⟩
        exact ⟨trivial, fun _ => rfl⟩
      refine keeps_await trivial ?_
      rintro (exc | call) -
      · exact hrecording (conclude (.error exc))
      · exact keeps_await trivial fun ending _ =>
          hrecording (conclude (.ok ending))
  | upsertQuota =>
      simp only [App.handlerTask]
      cases hbody : job.front.readBody job.request with
      | none => trivial
      | some body =>
          refine keeps_await trivial ?_
          rintro (exc | existing) -
          · trivial
          refine keeps_await (hlimited.body body parameter hbody hroute) ?_
          rintro (exc | _) -
          · trivial
          refine keeps_await trivial ?_
          rintro (exc | override) - <;> trivial
  | getQuota =>
      refine keeps_await trivial ?_
      rintro (exc | _ | override) - <;> trivial
  | deleteQuota =>
      refine keeps_await trivial ?_
      rintro (exc | _) - <;> trivial
  | _ => trivial

theorem resolveLimit_of {settings : Settings} {row : Option QuotaOverride}
    {tier : String} {P : Int → Prop}
    (hrow : ∀ found, row = some found → P found.customLimit)
    (htier : P (tierDefault settings tier)) (utcNow : ℚ) :
    P (resolveLimit settings row utcNow tier) := by
  cases row with
  | none => exact htier
  | some found =>
      simp only [resolveLimit, lookupOverride]
      cases found.expiresAt with
      | none => exact hrow found rfl
      | some expiresAt =>
          simp only []
          by_cases hexpired : expiresAt < utcNow
          · rw [if_pos hexpired]
            exact htier
          · rw [if_neg hexpired]
            exact hrow found rfl

theorem limiting_limitedTask (hlimited : job.Limited userId bound)
    {state : RequestState}
    (hpassed : job.app.passed job.request = some state) :
    Keeps (limiting userId bound) (fun _ _ => True)
      (job.app.limitedTask job.front job.request state) () := by
  obtain ⟨-, -, htask⟩ | ⟨claims, haccepted, -, htask⟩ :=
    job.app.limitedTask_cases job.front job.request hpassed <;> rw [htask]
  · exact limiting_handledTask hlimited state
  · refine keeps_await trivial fun counts _ => ?_
    refine keeps_await trivial ?_
    rintro (text | row) hrow
    · trivial
    refine keeps_await trivial fun utcNow _ => ?_
    change Keeps _ _ (if overflows _ = true then _ else _) ()
    split
    · trivial
    refine keeps_await ?_ fun result _ => ?_
    · intro huser
      refine effectiveLimit_le (resolveLimit_of
        (P := fun limit => effectiveLimit limit 1 ≤ bound) ?_ ?_ utcNow) counts
      · rintro found rfl
        exact hrow huser
      · exact hlimited.tier claims haccepted huser
    · change Keeps _ _ (if result.allowed = true then _ else _) ()
      split
      · exact (limiting_handledTask hlimited _).bind fun _ _ _ => trivial
      · trivial

theorem limiting_requestTask (hlimited : job.Limited userId bound) :
    Keeps (limiting userId bound) (fun _ _ => True)
      (job.app.requestTask job.front job.request) () := by
  refine Keeps.followed ?_ fun _ served => ?_
  · unfold App.serveTask
    cases hpassed : job.app.passed job.request with
    | none => trivial
    | some state =>
        exact (limiting_limitedTask hlimited hpassed).bind
          fun _ _ _ => trivial
  · split
    · trivial
    · exact keeps_await trivial fun _ _ => trivial

theorem perform_limited {id : ℕ} {question : Question} {now : Circumstances}
    {before after : Shared} {reply : question.Answer}
    (hrows : ∀ row, before.overrides userId = some row →
      effectiveLimit row.customLimit 1 ≤ bound)
    (hallowed : (limiting userId bound).allows () question)
    (h : perform jobs id question now before = some (reply, after)) :
    (∀ row, after.overrides userId = some row →
        effectiveLimit row.customLimit 1 ≤ bound) ∧
      (limiting userId bound).promises question reply := by
  have hframe := (perform_frame h).2.1
  cases question with
  | commitQuota user existing body =>
      refine ⟨?_, trivial⟩
      simp only [perform] at h
      split at h
      · obtain ⟨-, rfl⟩ := Prod.mk.inj (Option.some.inj h)
        exact hrows
      · next committed hcommit =>
          obtain ⟨-, rfl⟩ := Prod.mk.inj (Option.some.inj h)
          intro row hrow
          by_cases huser : insertedId user = userId
          · subst huser
            rw [Shared.setOverride_self] at hrow
            exact commitUpsert_customLimit
              (P := fun limit => effectiveLimit limit 1 ≤ bound) (hallowed rfl)
              hrows (now.query_eq_ok hcommit) row hrow
          · rw [Shared.setOverride_of_ne _ (Ne.symm huser)] at hrow
            exact hrows row hrow
  | deleteQuota user =>
      refine ⟨?_, trivial⟩
      simp only [perform] at h
      split at h
      · obtain ⟨-, rfl⟩ := Prod.mk.inj (Option.some.inj h)
        exact hrows
      · next deleted hdelete =>
          obtain ⟨-, rfl⟩ := Prod.mk.inj (Option.some.inj h)
          intro row hrow
          by_cases huser : user = userId
          · subst huser
            obtain ⟨-, rfl⟩ :=
              deleteQuota_eq_ok_iff.mp (now.query_eq_ok hdelete)
            rw [Shared.setOverride_self] at hrow
            cases hrow
          · rw [Shared.setOverride_of_ne _ (Ne.symm huser)] at hrow
            exact hrows row hrow
  | selectOverride user =>
      refine ⟨by rwa [hframe rfl], ?_⟩
      simp only [perform] at h
      split at h
      · obtain ⟨rfl, -⟩ := Prod.mk.inj (Option.some.inj h)
        trivial
      · obtain ⟨rfl, -⟩ := Prod.mk.inj (Option.some.inj h)
        unfold selectOverride
        cases hselect : selectQuota user (before.overrides user) with
        | error exc => trivial
        | ok found =>
            obtain ⟨-, hfound⟩ := selectQuota_eq_ok_iff.mp hselect
            cases found with
            | none => trivial
            | some row =>
                rintro rfl
                exact hrows row hfound.symm
  | _ => exact ⟨by rwa [hframe rfl], trivial⟩

end Limited

/-! ## What a check pays for -/

def checkedBy (userId : String) : Turn Question.Answer → Option LimitResult
  | ⟨.check user _ _, result⟩ => if user = userId then some result else none
  | _ => none

def paid (userId : String) (turn : Turn Question.Answer) : ℕ :=
  if (checkedBy userId turn).any (·.allowed) then 1 else 0

def admittedCall : Turn Question.Answer → ℕ
  | ⟨.enterBreaker, .ok _⟩ => 1
  | _ => 0

def paying (userId : String) : Contract Question.Answer ℕ :=
  Coroutine.budget (fun _ _ => True) (paid userId) admittedCall

section Paying

variable {job : Job} {userId : String} {rest : ℕ}

theorem paying_of_asking {α : Type} {kind : Question → Prop} {program : Task α}
    (h : Keeps (asking kind) (fun _ _ => True) program ())
    (hcheck : ∀ user baseLimit healthFactor,
      ¬ kind (.check user baseLimit healthFactor))
    (henter : ¬ kind .enterBreaker) :
    Keeps (paying userId) (fun _ _ => True) program rest := by
  refine (h.of_asking ?_).weaken fun _ _ _ => trivial
  intro question hkind
  have hfree : ∀ reply, admittedCall ⟨question, reply⟩ = 0 ∧
      paid userId ⟨question, reply⟩ = 0 := by
    cases question with
    | check user baseLimit healthFactor => exact absurd hkind (hcheck _ _ _)
    | enterBreaker => exact absurd hkind henter
    | _ => exact fun _ => ⟨rfl, rfl⟩
  constructor
  · intro reply _
    rw [(hfree reply).1]
    exact Nat.zero_le _
  · intro reply
    simp only [paying, Coroutine.budget, hfree reply, Nat.add_zero,
      Nat.sub_zero]

theorem paying_proxyTask (path : String) :
    Keeps (paying userId) (fun _ _ => True)
      (job.app.proxyTask job.request path) (rest + 1) := by
  have hrecording : ∀ conclusion rest, Keeps (paying userId) (fun _ _ => True)
      (afterRecordingTask conclusion) rest := fun conclusion rest =>
    paying_of_asking (afterRecordingTask_asks conclusion) (by simp) (by simp)
  refine keeps_await ?_ ?_
  · intro entered _
    cases entered with
    | error exc => exact Nat.zero_le _
    | ok call => exact Nat.le_add_left 1 _
  · rintro (exc | call) -
    · exact hrecording (conclude (.error exc)) _
    · refine keeps_await (fun _ _ => Nat.zero_le _) fun ending _ => ?_
      exact hrecording (conclude (.ok ending)) _

theorem paying_handledTask (state : RequestState) :
    Keeps (paying userId) (fun _ _ => True)
      (job.app.handledTask job.front job.request state) (rest + 1) := by
  refine job.app.keeps_handledTask_of job.front job.request trivial ?_
  intro endpoint parameter _
  by_cases hproxy : endpoint = .proxy
  · subst hproxy
    exact paying_proxyTask parameter
  · exact paying_of_asking
      (job.app.handlerTask_asks job.front job.request hproxy parameter state)
      (by simp [Question.isQuota]) (by simp [Question.isQuota])

theorem paying_requestTask {claims : Claims}
    (haccepted : job.app.acceptedClaims job.request = some claims)
    (hsub : claims.sub = userId) :
    Keeps (paying userId) (fun _ _ => True)
      (job.app.requestTask job.front job.request) 0 := by
  refine Keeps.followed ?_ fun _ served => ?_
  · unfold App.serveTask
    cases hpassed : job.app.passed job.request with
    | none => trivial
    | some state =>
        refine Keeps.followed ?_ fun _ _ => trivial
        obtain ⟨-, hnone, -⟩ | ⟨found, hfound, -, htask⟩ :=
          job.app.limitedTask_cases job.front job.request hpassed
        · rw [haccepted] at hnone
          cases hnone
        · rw [haccepted, Option.some_inj] at hfound
          subst hfound hsub
          rw [htask]
          refine keeps_await (fun _ _ => Nat.zero_le _) fun counts _ => ?_
          refine keeps_await (fun _ _ => Nat.zero_le _) ?_
          rintro (text | row) -
          · trivial
          refine keeps_await (fun _ _ => Nat.zero_le _) fun utcNow _ => ?_
          change Keeps _ _ (if overflows _ = true then _ else _) 0
          split
          · trivial
          refine keeps_await (fun _ _ => Nat.zero_le _) fun result _ => ?_
          change Keeps _ _ (if result.allowed = true then _ else _)
            (0 + paid claims.sub ⟨.check claims.sub _ _, result⟩ - 0)
          cases hallowed : result.allowed with
          | false => trivial
          | true =>
              simp only [paid, checkedBy, if_true, Option.any_some, hallowed]
              exact (paying_handledTask _).bind fun _ _ _ => trivial
  · split
    · trivial
    · exact keeps_await (fun _ _ => Nat.zero_le _) fun _ _ => trivial

end Paying

/-! ## The bound -/

def ofUser (jobs : ℕ → Job) (userId : String) (id : ℕ) : Bool :=
  ((jobs id).app.acceptedClaims (jobs id).request).any (·.sub = userId)

def forwarded (jobs : ℕ → Job) (userId : String) (history : List FleetEntry) :
    ℕ :=
  ((history.filter (ofUser jobs userId ·.input.1)).map
    (admittedCall ·.output)).sum

def checked (userId : String) (shared : Shared) (history : List FleetEntry) :
    List LimitResult :=
  RedisCall.resultsOf userId (redisCalls history) shared.redis

def failedOpen (userId : String) (shared : Shared)
    (history : List FleetEntry) : ℕ :=
  (checked userId shared history).countP (·.degraded)

theorem sum_checked (userId : String) (verdict : LimitResult → Bool)
    (history : List FleetEntry) :
    (history.map fun entry =>
      if (checkedBy userId entry.output).any verdict then 1 else 0).sum =
      (history.filterMap (checkedBy userId ·.output)).countP verdict := by
  induction history with
  | nil => rfl
  | cons entry history ih =>
      rw [List.map_cons, List.sum_cons, ih]
      cases hchecked : checkedBy userId entry.output with
      | none => simp [hchecked]
      | some result =>
          simp only [hchecked, List.filterMap_cons, List.countP_cons,
            Option.any_some]
          exact Nat.add_comm _ _

theorem checked_eq {userId : String}
    (h : History (fleetMachine jobs) (fleetStart jobs shared) history last) :
    checked userId shared history =
      (history.filterMap (checkedBy userId ·.output)).reverse := by
  have hredis := congrArg Prod.fst (redis_of_history h)
  simp only [fleetStart] at hredis
  rw [checked, RedisCall.resultsOf, hredis, ← List.filterMap_reverse,
    List.filter_filterMap, List.filterMap_filterMap, ← List.filterMap_reverse]
  congr 1
  funext entry
  obtain ⟨before, ⟨id, now⟩, ⟨question, reply⟩, after⟩ := entry
  cases question with
  | check user baseLimit healthFactor =>
      by_cases huser : user = userId <;>
        simp [redisView, checkedBy, RedisCall.isCheckOf, huser,
          Option.filter_some]
  | record success => simp [redisView, checkedBy, RedisCall.isCheckOf]
  | _ => simp [redisView, checkedBy]

theorem forwarded_le_checked (userId : String)
    (h : History (fleetMachine jobs) (fleetStart jobs shared) history last) :
    forwarded jobs userId history ≤
      (checked userId shared history).countP (·.allowed) := by
  have hkeeps : ∀ id, ofUser jobs userId id = true →
      Keeps (paying userId) (fun _ _ => True)
        ((jobs id).app.requestTask (jobs id).front (jobs id).request) 0 := by
    intro id hid
    obtain ⟨claims, haccepted, hsub⟩ := (Option.any_eq_true _ _).mp hid
    exact paying_requestTask haccepted (of_decide_eq_true hsub)
  have hpaid := cost_le_gain_of_history (fun _ _ _ => True) (paid userId)
    admittedCall (ofUser jobs userId) h hkeeps fun _ _ => trivial
  have hgroup : ((history.filter (ofUser jobs userId ·.input.1)).map
      (paid userId ·.output)).sum ≤ (history.map (paid userId ·.output)).sum :=
    (List.filter_sublist.map _).sum_le_sum fun _ _ => Nat.zero_le _
  rw [checked_eq h, List.countP_reverse, ← sum_checked]
  exact hpaid.trans hgroup

theorem countP_allowed_le (results : List LimitResult) :
    results.countP (·.allowed) ≤
      RedisCall.granted results + results.countP (·.degraded) := by
  induction results with
  | nil => exact Nat.zero_le _
  | cons result results ih =>
      simp only [RedisCall.granted, List.countP_cons] at ih ⊢
      cases result.allowed <;> cases result.degraded <;> simp <;> omega

theorem execution_limit_le {userId : String} {bound : ℕ}
    (hlimited : ∀ id, (jobs id).Limited userId bound)
    (hrows : ∀ row, shared.overrides userId = some row →
      effectiveLimit row.customLimit 1 ≤ bound)
    (h : History (fleetMachine jobs) (fleetStart jobs shared) history last) :
    ∀ execution ∈ RedisCall.executions userId (redisCalls history),
      execution.call.limit ≤ bound := by
  obtain ⟨-, hallowed, -⟩ := keeps_of_history
    (P := fun shared : Shared => ∀ row, shared.overrides userId = some row →
      effectiveLimit row.customLimit 1 ≤ bound)
    (fun _ => limiting userId bound) (fun _ => ()) hrows
    (fun id => limiting_requestTask (hlimited id))
    (fun _ _ _ _ _ _ _ hrows hasked hperform =>
      perform_limited hrows hasked hperform) h
  intro execution hmem
  obtain ⟨call, hcall, hexecution⟩ := List.mem_filterMap.mp hmem
  obtain ⟨entry, hentry, hview⟩ := exists_view_of_mem hcall
  obtain ⟨-, -, _, hasked⟩ := hallowed entry hentry
  obtain ⟨before, ⟨id, now⟩, ⟨question, reply⟩, after⟩ := entry
  cases question with
  | check user baseLimit healthFactor =>
      obtain rfl := Option.some.inj hview
      simp only [RedisCall.execution?] at hexecution
      split at hexecution
      · next hexecuted =>
          rw [← Option.some.inj hexecution]
          exact hasked hexecuted.1
      · cases hexecution
  | record success =>
      obtain rfl := Option.some.inj hview
      cases hexecution
  | _ => cases hview

/--
However many workers serve a user and however the requests of all users
interleave, the calls that reach the upstream for the user are bounded by a
full bucket, the refill along the readings of the clock, and the checks that
have failed open.
-/
theorem forwarded_le {userId : String} {bound : ℕ}
    (hlimited : ∀ id, (jobs id).Limited userId bound)
    (hrows : ∀ row, shared.overrides userId = some row →
      effectiveLimit row.customLimit 1 ≤ bound)
    (hkey : shared.redis (userKey userId) = none)
    (htime : RedisCall.KeepsTime userId (redisCalls history))
    (h : History (fleetMachine jobs) (fleetStart jobs shared) history last) :
    let executions := RedisCall.executions userId (redisCalls history)
    (forwarded jobs userId history : ℚ) ≤
      bound + creditedSeconds
        (fun k => (RedisCall.sequence executions k).now)
        (executions.length - 1) * (bound / 60) +
      failedOpen userId shared history := by
  intro executions
  have hgranted := RedisCall.granted_le hkey htime
    (execution_limit_le hlimited hrows h)
  have hchecked : (forwarded jobs userId history : ℚ) ≤
      RedisCall.granted (checked userId shared history) +
        failedOpen userId shared history := by
    exact_mod_cast (forwarded_le_checked userId h).trans
      (countP_allowed_le (checked userId shared history))
  exact hchecked.trans (add_le_add_left hgranted _)

theorem aliceJob_limited : aliceJob.Limited "alice" 60 where
  tier claims haccepted _ := by
    have hfree : aliceJob.app.acceptedClaims aliceJob.request =
        some ⟨"alice", "free"⟩ := by decide +kernel
    rw [hfree, Option.some_inj] at haccepted
    subst haccepted
    decide +kernel
  body _ _ hbody := by cases hbody

theorem forwarded_le_twoVisits :
    forwarded aliceJobs "alice" twoVisits.1 = 2 ∧
      (forwarded aliceJobs "alice" twoVisits.1 : ℚ) ≤
        (60 : ℕ) + creditedSeconds
          (fun k => (RedisCall.sequence (RedisCall.executions "alice"
            (redisCalls twoVisits.1)) k).now)
          ((RedisCall.executions "alice" (redisCalls twoVisits.1)).length - 1) *
            ((60 : ℕ) / 60) +
        failedOpen "alice" idle twoVisits.1 := by
  refine ⟨by decide +kernel, forwarded_le
    (fun _ => aliceJob_limited) nofun rfl ?_ twoVisits_history⟩
  unfold RedisCall.KeepsTime
  decide +kernel

end RateLimitedGateway.Main
