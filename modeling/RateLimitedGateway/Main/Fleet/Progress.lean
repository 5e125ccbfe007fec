import RateLimitedGateway.Main.Fleet

/-!
# The turns of a request

A request takes few turns, and no breaker keeps it from its next one: the
breaker knows each call that a request holds until the request has finished it.
-/

namespace RateLimitedGateway.Infra.Calls

variable {ε α γ : Type} {breaker : CircuitBreaker}

theorem mem_without {running : List (ℕ × γ)} {id : ℕ} {call : ℕ × γ} :
    call ∈ without running id ↔ call ∈ running ∧ call.1 ≠ id := by
  simp [without]

structure WellNumbered (calls : Calls γ) : Prop where
  numbered : calls.Numbered
  nodup : calls.ids.Nodup

theorem wellNumbered_step {calls after : Calls γ} {event : CallEvent ε α γ}
    {outcome : CallOutcome ε α} (hcalls : calls.WellNumbered)
    (h : breaker.step calls event = some (outcome, after)) :
    after.WellNumbered := by
  refine ⟨numbered_step hcalls.numbered h, ?_⟩
  obtain ⟨func, now, circuit, _, _, _, _, rfl⟩ |
    ⟨func, now, exc, _, _, _, _, rfl⟩ |
    ⟨finished, ending, now, _, _, _, _, rfl⟩ := CircuitBreaker.step_cases h
  · refine List.nodup_cons.mpr ⟨fun hmem => ?_, hcalls.nodup⟩
    exact Nat.lt_irrefl _ (hcalls.numbered _ hmem)
  · exact hcalls.nodup
  · exact (List.filter_sublist.map Prod.fst).nodup hcalls.nodup

theorem WellNumbered.func_eq {calls : Calls γ} (hcalls : calls.WellNumbered)
    {id : ℕ} {func other : γ} (hfunc : (id, func) ∈ calls.running)
    (hother : (id, other) ∈ calls.running) : func = other := by
  have hpair := List.inj_on_of_nodup_map hcalls.nodup hfunc hother rfl
  exact (Prod.mk.inj hpair).2

end RateLimitedGateway.Infra.Calls

namespace RateLimitedGateway.Main

open RateLimitedGateway.Foundation RateLimitedGateway.Http
open RateLimitedGateway.Infra RateLimitedGateway.Middleware
open RateLimitedGateway.Routes RateLimitedGateway.Services
open Coroutine (Contract Keeps keeps_await)

variable {jobs : ℕ → Job} {shared : Shared} {last : Fleet}
variable {history : List FleetEntry}

/-! ## The call that a request holds -/

def holding : Contract Question.Answer (Option ℕ) where
  allows held question :=
    match question with
    | .enterBreaker => held = none
    | .finishCall call _ => held = some call
    | _ => True
  promises _ _ := True
  remember held turn :=
    match turn with
    | ⟨.enterBreaker, .ok call⟩ => some call
    | ⟨.finishCall _ _, _⟩ => none
    | _ => held

def held (turns : List (Turn Question.Answer)) : Option ℕ :=
  holding.rememberAll none turns

namespace App

variable (app : App) (front : QuotaFront) (request : Request)

theorem holding_handledTask (state : RequestState) :
    Keeps holding (fun held _ => held = none)
      (app.handledTask front request state) none := by
  refine app.keeps_handledTask_of front request rfl ?_
  intro endpoint parameter _
  by_cases hproxy : endpoint = .proxy
  · subst hproxy
    have hrecording : ∀ conclusion, Keeps holding (fun held _ => held = none)
        (afterRecordingTask conclusion) none := by
      intro conclusion
      refine ((afterRecordingTask_asks conclusion).of_asking ?_).weaken
        fun _ _ hrest => hrest.1
      rintro question ⟨success, rfl⟩
      exact ⟨trivial, fun _ => rfl⟩
    refine keeps_await rfl ?_
    rintro (exc | call) -
    · exact hrecording (conclude (.error exc))
    · exact keeps_await rfl fun ending _ => hrecording (conclude (.ok ending))
  · refine ((app.handlerTask_asks front request hproxy parameter
      state).of_asking ?_).weaken fun _ _ hrest => hrest.1
    intro question hquota
    cases question with
    | enterBreaker => cases hquota
    | finishCall call sent => cases hquota
    | _ => exact ⟨trivial, fun _ => rfl⟩

theorem holding_requestTask :
    Keeps holding (fun held _ => held = none) (app.requestTask front request)
      none := by
  have hchecked : ∀ state userId tier,
      Keeps holding (fun held _ => held = none)
        (app.checkedTask front request state userId tier) none := by
    intro state userId tier
    refine keeps_await trivial fun counts _ => keeps_await trivial ?_
    rintro (text | row) -
    · rfl
    refine keeps_await trivial fun utcNow _ => ?_
    change Keeps _ _ (if overflows _ = true then _ else _) none
    split
    · rfl
    refine keeps_await trivial fun result _ => ?_
    change Keeps _ _ (if result.allowed = true then _ else _) none
    split
    · exact (app.holding_handledTask front request _).bind
        fun _ _ hnone => hnone
    · rfl
  have hserve : Keeps holding (fun held _ => held = none)
      (app.serveTask front request) none := by
    unfold serveTask
    cases hpassed : app.passed request with
    | none => rfl
    | some state =>
        refine Keeps.bind ?_ fun _ _ hnone => hnone
        obtain ⟨-, -, htask⟩ | ⟨claims, -, -, htask⟩ :=
          app.limitedTask_cases front request hpassed <;> rw [htask]
        · exact app.holding_handledTask front request state
        · exact hchecked state claims.sub claims.tier
  refine hserve.bind ?_
  rintro _ served rfl
  split
  · rfl
  · exact keeps_await trivial fun _ _ => rfl

end App

/-! ## What the breakers know -/

def Accounted (jobs : ℕ → Job) (shared : Shared) (history : List FleetEntry) :
    Prop :=
  ∀ worker call id, (call, id) ∈ (shared.breakers worker).running ↔
    (jobs id).worker = worker ∧ held (turnsOf id history) = some call

theorem held_cons_self (entry : FleetEntry) :
    held (turnsOf entry.input.1 (entry :: history)) =
      holding.remember (held (turnsOf entry.input.1 history)) entry.output := by
  rw [turnsOf_cons, if_pos rfl]
  rfl

theorem held_cons_of_ne (entry : FleetEntry) {id : ℕ}
    (hne : id ≠ entry.input.1) :
    held (turnsOf id (entry :: history)) = held (turnsOf id history) := by
  rw [turnsOf_cons, if_neg (Ne.symm hne)]

theorem wellNumbered_of_history
    (hstart : ∀ worker, (shared.breakers worker).WellNumbered)
    (h : History (fleetMachine jobs) (fleetStart jobs shared) history last)
    (worker : ℕ) : (last.shared.breakers worker).WellNumbered :=
  (breaker_of_history worker h).invariant (hstart worker)
    fun _ _ _ _ hbefore hstep => Calls.wellNumbered_step hbefore hstep

theorem holding_of_history
    (h : History (fleetMachine jobs) (fleetStart jobs shared) history last)
    (id : ℕ) :
    Keeps holding (fun held _ => held = none) (last.process id)
      (held (turnsOf id history)) :=
  (keeps_of_history (P := fun _ => True) (fun _ => holding) (fun _ => none)
    trivial
    (fun id => (jobs id).app.holding_requestTask (jobs id).front
      (jobs id).request)
    (fun _ _ _ _ _ _ _ _ _ _ => ⟨trivial, trivial⟩) h).2.2 id

def runningAfter (id : ℕ) (turn : Turn Question.Answer)
    (running : List (ℕ × ℕ)) : List (ℕ × ℕ) :=
  match turn with
  | ⟨.enterBreaker, .ok call⟩ => (call, id) :: running
  | ⟨.finishCall call _, _⟩ => Calls.without running call
  | _ => running

theorem perform_running {id : ℕ} {question : Question} {now : Circumstances}
    {before after : Shared} {reply : question.Answer}
    (h : perform jobs id question now before = some (reply, after))
    (worker : ℕ) :
    (after.breakers worker).running =
      if (jobs id).worker = worker then
        runningAfter id ⟨question, reply⟩ (before.breakers worker).running
      else (before.breakers worker).running := by
  have hframe := (perform_frame h).2.2.1
  by_cases hworker : (jobs id).worker = worker
  · subst hworker
    rw [if_pos rfl]
    have hself : ∀ left,
        ((before.setBreaker (jobs id).worker left).breakers
          (jobs id).worker) = left := fun left => Function.update_self _ _ _
    cases question with
    | enterBreaker =>
        obtain ⟨outcome, left, hstep, rfl, hok, herror⟩ :=
          perform_enterBreaker h
        rw [hself]
        obtain ⟨_, _, _, heq, _, _, hout, rfl⟩ |
          ⟨_, _, _, heq, _, _, hout, rfl⟩ |
          ⟨_, _, _, heq, _⟩ := CircuitBreaker.step_cases hstep
        · cases heq
          cases reply with
          | ok call =>
              rw [hok call rfl] at hout
              cases hout
              rfl
          | error exc =>
              rw [herror exc rfl] at hout
              cases hout
        · cases reply with
          | ok call =>
              rw [hok call rfl] at hout
              cases hout
          | error exc => rfl
        · cases heq
    | finishCall call sent =>
        obtain ⟨-, left, hstep, rfl⟩ := perform_finishCall h
        rw [hself]
        obtain ⟨_, _, _, heq, _⟩ | ⟨_, _, _, heq, _⟩ |
          ⟨_, _, _, heq, _, _, _, rfl⟩ := CircuitBreaker.step_cases hstep
        · cases heq
        · cases heq
        · cases heq
          rfl
    | _ => rw [hframe rfl]; rfl
  · rw [if_neg hworker]
    have hother : ∀ left,
        ((before.setBreaker (jobs id).worker left).breakers worker) =
          before.breakers worker :=
      fun left => Function.update_of_ne (Ne.symm hworker) _ _
    cases question with
    | enterBreaker =>
        obtain ⟨_, left, _, rfl, _⟩ := perform_enterBreaker h
        rw [hother]
    | finishCall call sent =>
        obtain ⟨-, left, _, rfl⟩ := perform_finishCall h
        rw [hother]
    | _ => rw [hframe rfl]

theorem mem_runningAfter {id : ℕ} {turn : Turn Question.Answer}
    {running : List (ℕ × ℕ)} {memory : Option ℕ}
    (hallowed : holding.allows memory turn.1)
    (hself : ∀ call, (call, id) ∈ running ↔ memory = some call) :
    ∀ call, (call, id) ∈ runningAfter id turn running ↔
      holding.remember memory turn = some call := by
  intro call
  obtain ⟨question, reply⟩ := turn
  cases question with
  | enterBreaker =>
      obtain rfl : memory = none := hallowed
      cases reply with
      | error exc => exact hself call
      | ok entered => simp [runningAfter, holding, hself, eq_comm]
  | finishCall finished sent =>
      obtain rfl : memory = some finished := hallowed
      simp only [runningAfter, holding, Calls.mem_without, hself]
      simp [eq_comm]
  | _ => exact hself call

theorem mem_runningAfter_of_ne {id other : ℕ} {turn : Turn Question.Answer}
    {running : List (ℕ × ℕ)} {memory : Option ℕ}
    (hallowed : holding.allows memory turn.1)
    (hself : ∀ call, memory = some call → (call, id) ∈ running)
    (hnumbered : ∀ call, (call, id) ∈ running → (call, other) ∈ running →
      id = other) (hne : other ≠ id) (call : ℕ) :
    (call, other) ∈ runningAfter id turn running ↔
      (call, other) ∈ running := by
  obtain ⟨question, reply⟩ := turn
  cases question with
  | enterBreaker =>
      cases reply with
      | error exc => rfl
      | ok entered => simp [runningAfter, hne]
  | finishCall finished sent =>
      simp only [runningAfter, Calls.mem_without, and_iff_left_iff_imp]
      rintro hmem rfl
      exact hne (hnumbered call (hself call hallowed) hmem).symm
  | _ => rfl

theorem accounted_of_history
    (hstart : ∀ worker, (shared.breakers worker).WellNumbered)
    (hidle : ∀ worker, (shared.breakers worker).running = [])
    (h : History (fleetMachine jobs) (fleetStart jobs shared) history last) :
    Accounted jobs last.shared history := by
  induction h with
  | start =>
      intro worker call id
      simp [fleetStart, hidle, turnsOf, held, Contract.rememberAll]
  | @next past before after input turn hpast hstep ih =>
      obtain ⟨resume, hprocess, hturn, hafter⟩ := interleaved_cases hstep
      have hkept := holding_of_history hpast input.1
      rw [hprocess] at hkept
      intro worker call id
      rw [perform_running hturn worker]
      by_cases hid : id = input.1
      · subst hid
        rw [held_cons_self ⟨before, input, turn, after⟩]
        by_cases hworker : (jobs input.1).worker = worker
        · have hself : ∀ call,
              (call, input.1) ∈ (before.shared.breakers worker).running ↔
                held (turnsOf input.1 past) = some call := by
            intro call
            rw [ih worker call input.1]
            exact and_iff_right hworker
          rw [if_pos hworker, mem_runningAfter hkept.1 hself]
          exact (and_iff_right hworker).symm
        · rw [if_neg hworker, ih worker call input.1]
          simp [hworker]
      · rw [held_cons_of_ne ⟨before, input, turn, after⟩ hid,
          ← ih worker call id]
        split
        · next hworker =>
            refine mem_runningAfter_of_ne hkept.1 ?_ ?_ hid call
            · intro held hheld
              exact (ih worker held input.1).mpr ⟨hworker, hheld⟩
            · intro held hself hother
              exact (wellNumbered_of_history hstart hpast worker).func_eq hself
                hother
        · rfl

/-! ## How long a request takes -/

def lasting : Contract Question.Answer ℕ :=
  Coroutine.budget (fun _ _ => True) (fun _ => 0) fun _ => 1

theorem lasting_await {α : Type} {ends : ℕ → α → Prop} {question : Question}
    {resume : question.Answer → Task α} {rest : ℕ}
    (hresume : ∀ reply, Keeps lasting ends (resume reply) rest) :
    Keeps lasting ends (.await question resume) (rest + 1) :=
  keeps_await (fun _ _ => Nat.le_add_left 1 rest) fun reply _ => hresume reply

namespace App

variable (app : App) (front : QuotaFront) (request : Request)

theorem lasting_handledTask (state : RequestState) (rest : ℕ) :
    Keeps lasting (fun rest _ => 0 < rest)
      (app.handledTask front request state) (rest + 4) := by
  refine app.keeps_handledTask_of front request (Nat.succ_pos _) ?_
  intro endpoint parameter _
  cases endpoint with
  | proxy =>
      have hrecording : ∀ conclusion rest,
          Keeps lasting (fun rest _ => 0 < rest)
            (afterRecordingTask conclusion) (rest + 2) := by
        intro conclusion rest
        unfold afterRecordingTask
        cases conclusion.recorded with
        | none => exact Nat.succ_pos _
        | some success =>
            refine lasting_await ?_
            rintro (text | _) <;> exact Nat.succ_pos _
      refine lasting_await ?_
      rintro (exc | call)
      · exact hrecording (conclude (.error exc)) _
      · exact lasting_await fun ending => hrecording (conclude (.ok ending)) _
  | upsertQuota =>
      simp only [handlerTask]
      cases front.readBody request with
      | none => exact Nat.succ_pos _
      | some body =>
          refine lasting_await ?_
          rintro (exc | existing)
          · exact Nat.succ_pos _
          refine lasting_await ?_
          rintro (exc | _)
          · exact Nat.succ_pos _
          refine lasting_await ?_
          rintro (exc | override) <;> exact Nat.succ_pos _
  | getQuota =>
      refine lasting_await ?_
      rintro (exc | _ | override) <;> exact Nat.succ_pos _
  | deleteQuota =>
      refine lasting_await ?_
      rintro (exc | _) <;> exact Nat.succ_pos _
  | _ => exact Nat.succ_pos _

/-- Four turns until the router, three behind it, one for the log. -/
theorem lasting_requestTask :
    Keeps lasting (fun _ _ => True) (app.requestTask front request) 8 := by
  have hchecked : ∀ state userId tier,
      Keeps lasting (fun rest _ => 0 < rest)
        (app.checkedTask front request state userId tier) 8 := by
    intro state userId tier
    refine lasting_await fun counts => lasting_await ?_
    rintro (text | row)
    · exact Nat.succ_pos _
    refine lasting_await fun utcNow => ?_
    change Keeps _ _ (if overflows _ = true then _ else _) 5
    split
    · exact Nat.succ_pos _
    refine lasting_await fun result => ?_
    change Keeps _ _ (if result.allowed = true then _ else _) 4
    split
    · exact (app.lasting_handledTask front request _ 0).bind
        fun _ _ hrest => hrest
    · exact Nat.succ_pos _
  have hserve : Keeps lasting (fun rest _ => 0 < rest)
      (app.serveTask front request) 8 := by
    unfold serveTask
    cases hpassed : app.passed request with
    | none => exact Nat.succ_pos _
    | some state =>
        refine Keeps.bind ?_ fun _ _ hrest => hrest
        obtain ⟨-, -, htask⟩ | ⟨claims, -, -, htask⟩ :=
          app.limitedTask_cases front request hpassed <;> rw [htask]
        · exact app.lasting_handledTask front request state 4
        · exact hchecked state claims.sub claims.tier
  refine hserve.bind fun rest served hrest => ?_
  split
  · trivial
  · exact keeps_await (fun _ _ => hrest) fun _ _ => trivial

end App

/-- A turn waits for nothing but the clock of its worker's breaker. -/
theorem exists_perform {id : ℕ} {question : Question} {now : Circumstances}
    (hclock : (shared.breakers (jobs id).worker).clock ≤ now.monotonic)
    (hrunning : ∀ call sent, question = .finishCall call sent →
      (call, id) ∈ (shared.breakers (jobs id).worker).running) :
    ∃ answered, perform jobs id question now shared = some answered := by
  cases question with
  | enterBreaker =>
      simp only [perform, takeSection]
      cases henter : upstreamBreaker.enter
          (shared.breakers (jobs id).worker).circuit now.monotonic with
      | ok circuit =>
          rw [CircuitBreaker.step_admits id hclock henter]
          exact ⟨_, rfl⟩
      | error exc =>
          rw [CircuitBreaker.step_rejects id hclock henter]
          exact ⟨_, rfl⟩
  | finishCall call sent =>
      have hid : call ∈ (shared.breakers (jobs id).worker).ids :=
        List.mem_map_of_mem (hrunning call sent rfl)
      simp only [perform, takeSection,
        CircuitBreaker.step_finishes upstreamBreaker _ hclock hid]
      exact ⟨_, rfl⟩
  | healthCounts =>
      simp only [perform]
      split <;> exact ⟨_, rfl⟩
  | selectOverride userId =>
      simp only [perform]
      split <;> exact ⟨_, rfl⟩
  | commitQuota userId existing body =>
      simp only [perform]
      split <;> exact ⟨_, rfl⟩
  | deleteQuota userId =>
      simp only [perform]
      split <;> exact ⟨_, rfl⟩
  | writeLog entry =>
      simp only [perform]
      split <;> exact ⟨_, rfl⟩
  | _ => exact ⟨_, rfl⟩

theorem length_turnsOf_le
    (h : History (fleetMachine jobs) (fleetStart jobs shared) history last)
    (id : ℕ) : (turnsOf id history).length ≤ 8 := by
  have hbalance := Coroutine.cost_le_gain
    ((jobs id).app.lasting_requestTask (jobs id).front (jobs id).request)
    (leads_of_history h id) fun _ _ => trivial
  simp only [List.map_const', List.sum_replicate_nat] at hbalance
  omega

theorem exists_turn (hstart : ∀ worker, (shared.breakers worker).WellNumbered)
    (hidle : ∀ worker, (shared.breakers worker).running = [])
    (h : History (fleetMachine jobs) (fleetStart jobs shared) history last)
    {id : ℕ} {question : Question} {resume : question.Answer → Task Served}
    (hprocess : last.process id = .await question resume)
    {now : Circumstances}
    (hclock : (last.shared.breakers (jobs id).worker).clock ≤ now.monotonic) :
    ∃ reply after,
      fleetMachine jobs last (id, now) = some (⟨question, reply⟩, after) := by
  have hkept := holding_of_history h id
  rw [hprocess] at hkept
  have hcan : ∃ answered, perform jobs id question now last.shared =
      some answered := by
    apply exists_perform hclock
    rintro call sent rfl
    exact (accounted_of_history hstart hidle h _ call id).mpr ⟨rfl, hkept.1⟩
  obtain ⟨⟨reply, after⟩, hperform⟩ := hcan
  simp [fleetMachine, interleaved, hprocess, hperform]

end RateLimitedGateway.Main
