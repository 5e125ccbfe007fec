import Mathlib.Data.Finset.Card
import RateLimitedGateway.Main.Fleet.Progress

/-!
# The sessions of a worker

The database connections of a worker are few.  A request keeps one while it
awaits the limiter, and one between the select and the commit of a quota.  No
request that keeps one waits for another, so there is no deadlock: whoever
waits can go on as soon as any of those who keep one has taken two turns.
-/

namespace RateLimitedGateway.Main

open RateLimitedGateway.Foundation RateLimitedGateway.Http
open RateLimitedGateway.Infra RateLimitedGateway.Middleware
open RateLimitedGateway.Routes RateLimitedGateway.Services
open Coroutine (Contract Keeps keeps_await)

variable {jobs : ℕ → Job} {shared : Shared} {last : Fleet}
variable {history : List FleetEntry}

def Question.opensSession : Question → Bool
  | selectOverride _ => true
  | selectQuota _ => true
  | refreshQuota _ => true
  | deleteQuota _ => true
  | writeLog _ => true
  | _ => false

/-- The turn begins in a session that an earlier turn has opened. -/
def Question.inSession : Question → Bool
  | utcNow => true
  | check _ _ _ => true
  | commitQuota _ _ _ => true
  | _ => false

def awaits (kind : Question → Bool) (fleet : Fleet) (id : ℕ) : Bool :=
  match fleet.process id with
  | .done _ => false
  | .await question _ => kind question

def holdsSession (fleet : Fleet) (id : ℕ) : Bool :=
  awaits Question.inSession fleet id

/-- `pool_size` and `max_overflow`, which the engine leaves at 5 and 10. -/
def poolSize : ℕ := 5 + 10

structure Holders (jobs : ℕ → Job) (fleet : Fleet) (worker : ℕ)
    (holders : Finset ℕ) : Prop where
  worker_eq : ∀ id ∈ holders, (jobs id).worker = worker
  holdsSession_eq : ∀ id ∈ holders, holdsSession fleet id = true

def PoolFull (jobs : ℕ → Job) (fleet : Fleet) (worker : ℕ) : Prop :=
  ∃ holders, Holders jobs fleet worker holders ∧ poolSize ≤ holders.card

/-- The turn that a request takes when it has no session, or waited too long. -/
def goesWithout (question : Question) (now : Circumstances) : Prop :=
  match question with
  | .writeLog _ => now.delivery = .failsBefore
  | _ => now.databaseError ≠ none

def Admitted (jobs : ℕ → Job) (entry : FleetEntry) : Prop :=
  entry.output.1.opensSession = true →
    PoolFull jobs entry.before (jobs entry.input.1).worker →
    goesWithout entry.output.1 entry.input.2

def Pooled (jobs : ℕ → Job) (history : List FleetEntry) : Prop :=
  ∀ entry ∈ history, Admitted jobs entry

def CanGoOn (jobs : ℕ → Job) (fleet : Fleet) (id : ℕ) (now : Circumstances) :
    Prop :=
  ∃ turn after, fleetMachine jobs fleet (id, now) = some (turn, after) ∧
    Admitted jobs ⟨fleet, (id, now), turn, after⟩

/-! ## How long a session is kept -/

/-- The memory is how many turns may still be taken in the session. -/
def sessions : Contract Question.Answer ℕ where
  allows left question := question.inSession = true → 0 < left
  promises _ _ := True
  remember left turn :=
    match turn with
    | ⟨.selectOverride _, .ok _⟩ => 2
    | ⟨.selectQuota _, .ok _⟩ => 1
    | ⟨.utcNow, _⟩ => left - 1
    | _ => 0

theorem sessions_remember_lt {left : ℕ} {turn : Turn Question.Answer}
    (hsession : turn.1.inSession = true) (hleft : 0 < left) :
    sessions.remember left turn < left := by
  obtain ⟨question, reply⟩ := turn
  cases question with
  | utcNow => exact Nat.sub_lt hleft Nat.one_pos
  | check userId baseLimit healthFactor => exact hleft
  | commitQuota userId existing body => exact hleft
  | _ => cases hsession

theorem sessions_remember_le (turns : List (Turn Question.Answer)) :
    sessions.rememberAll 0 turns ≤ 2 := by
  induction turns with
  | nil => exact Nat.zero_le 2
  | cons turn turns ih =>
      obtain ⟨question, reply⟩ := turn
      cases question with
      | selectOverride userId => cases reply <;> exact Nat.le_of_ble_eq_true rfl
      | selectQuota userId => cases reply <;> exact Nat.le_of_ble_eq_true rfl
      | utcNow => exact (Nat.sub_le _ 1).trans ih
      | _ => exact Nat.zero_le 2

theorem exists_opensSession {turns : List (Turn Question.Answer)}
    (h : 0 < sessions.rememberAll 0 turns) :
    ∃ turn ∈ turns, turn.1.opensSession = true := by
  induction turns with
  | nil => cases h
  | cons turn turns ih =>
      have hearlier : 0 < sessions.rememberAll 0 turns →
          ∃ turn' ∈ turn :: turns, turn'.1.opensSession = true := by
        intro hleft
        obtain ⟨opening, hmem, hopens⟩ := ih hleft
        exact ⟨opening, List.mem_cons_of_mem _ hmem, hopens⟩
      obtain ⟨question, reply⟩ := turn
      cases question with
      | selectOverride userId => exact ⟨_, List.mem_cons_self, rfl⟩
      | selectQuota userId => exact ⟨_, List.mem_cons_self, rfl⟩
      | utcNow => exact hearlier (Nat.lt_of_lt_of_le h (Nat.sub_le _ 1))
      | _ => cases h

theorem sessions_await {α : Type} {ends : ℕ → α → Prop} {question : Question}
    {resume : question.Answer → Task α} {left : ℕ}
    (houtside : question.inSession = false)
    (hresume : ∀ reply, Keeps sessions ends (resume reply)
      (sessions.remember left ⟨question, reply⟩)) :
    Keeps sessions ends (.await question resume) left := by
  refine keeps_await (fun hsession => ?_) fun reply _ => hresume reply
  rw [houtside] at hsession
  cases hsession

namespace App

variable (app : App) (front : QuotaFront) (request : Request)

theorem sessions_handledTask (state : RequestState) (left : ℕ) :
    Keeps sessions (fun _ _ => True) (app.handledTask front request state)
      left := by
  refine app.keeps_handledTask_of front request trivial ?_
  intro endpoint parameter _
  cases endpoint with
  | proxy =>
      have hrecording : ∀ conclusion left, Keeps sessions (fun _ _ => True)
          (afterRecordingTask conclusion) left := by
        intro conclusion left
        unfold afterRecordingTask
        cases conclusion.recorded with
        | none => trivial
        | some success =>
            refine sessions_await rfl ?_
            rintro (text | _) <;> trivial
      refine sessions_await rfl ?_
      rintro (exc | call)
      · exact hrecording (conclude (.error exc)) _
      · exact sessions_await rfl fun ending =>
          hrecording (conclude (.ok ending)) _
  | upsertQuota =>
      simp only [handlerTask]
      cases front.readBody request with
      | none => trivial
      | some body =>
          refine sessions_await rfl ?_
          rintro (exc | existing)
          · trivial
          refine keeps_await (fun _ => Nat.one_pos) ?_
          rintro (exc | _) -
          · trivial
          refine sessions_await rfl ?_
          rintro (exc | override) <;> trivial
  | getQuota =>
      refine sessions_await rfl ?_
      rintro (exc | _ | override) <;> trivial
  | deleteQuota =>
      refine sessions_await rfl ?_
      rintro (exc | _) <;> trivial
  | _ => trivial

theorem sessions_requestTask :
    Keeps sessions (fun _ _ => True) (app.requestTask front request) 0 := by
  have hchecked : ∀ state userId tier, Keeps sessions (fun _ _ => True)
      (app.checkedTask front request state userId tier) 0 := by
    intro state userId tier
    refine sessions_await rfl fun counts => sessions_await rfl ?_
    rintro (text | row)
    · trivial
    refine keeps_await (fun _ => Nat.two_pos) fun utcNow _ => ?_
    change Keeps _ _ (if overflows _ = true then _ else _) 1
    split
    · trivial
    refine keeps_await (fun _ => Nat.one_pos) fun result _ => ?_
    change Keeps _ _ (if result.allowed = true then _ else _) 0
    split
    · exact (app.sessions_handledTask front request _ 0).followed
        fun _ _ => trivial
    · trivial
  refine Keeps.followed ?_ fun left served => ?_
  · unfold serveTask
    cases hpassed : app.passed request with
    | none => trivial
    | some state =>
        refine Keeps.followed ?_ fun _ _ => trivial
        obtain ⟨-, -, htask⟩ | ⟨claims, -, -, htask⟩ :=
          app.limitedTask_cases front request hpassed <;> rw [htask]
        · exact app.sessions_handledTask front request state 0
        · exact hchecked state claims.sub claims.tier
  · split
    · trivial
    · exact sessions_await rfl fun _ => trivial

end App

/-! ## The pool -/

theorem sessions_of_history
    (h : History (fleetMachine jobs) (fleetStart jobs shared) history last)
    (id : ℕ) :
    Keeps sessions (fun _ _ => True) (last.process id)
      (sessions.rememberAll 0 (turnsOf id history)) :=
  ((jobs id).app.sessions_requestTask (jobs id).front (jobs id).request).leads
    (leads_of_history h id) fun _ _ => trivial

theorem holdsSession_of_await {fleet : Fleet} {id : ℕ} {question : Question}
    {resume : question.Answer → Task Served}
    (hprocess : fleet.process id = .await question resume) :
    holdsSession fleet id = question.inSession := by
  rw [holdsSession, awaits, hprocess]

theorem left_of_holdsSession {fleet : Fleet} {id left : ℕ}
    (hkeeps : Keeps sessions (fun _ _ => True) (fleet.process id) left)
    (hholds : holdsSession fleet id = true) : 0 < left := by
  unfold holdsSession awaits at hholds
  cases hprocess : fleet.process id with
  | done served => simp [hprocess] at hholds
  | await question resume =>
      rw [hprocess] at hkeeps hholds
      exact hkeeps.1 hholds

theorem opensSession_eq_false {question : Question}
    (hsession : question.inSession = true) : question.opensSession = false := by
  cases question with
  | utcNow => rfl
  | check userId baseLimit healthFactor => rfl
  | commitQuota userId existing body => rfl
  | _ => cases hsession

theorem Holders.mono {fleet other : Fleet} {worker : ℕ}
    {holders fewer : Finset ℕ} (h : Holders jobs fleet worker holders)
    (hsubset : fewer ⊆ holders)
    (hsame : ∀ id ∈ fewer, holdsSession fleet id = holdsSession other id) :
    Holders jobs other worker fewer where
  worker_eq id hmem := h.worker_eq id (hsubset hmem)
  holdsSession_eq id hmem := by
    rw [← hsame id hmem]
    exact h.holdsSession_eq id (hsubset hmem)

theorem holdsSession_of_ne {before after : Fleet} {input : ℕ × Circumstances}
    {turn : Turn Question.Answer}
    (hstep : fleetMachine jobs before input = some (turn, after)) {id : ℕ}
    (hne : id ≠ input.1) : holdsSession after id = holdsSession before id := by
  obtain ⟨resume, -, -, hafter⟩ := interleaved_cases hstep
  rw [holdsSession, awaits, hafter, Function.update_of_ne hne]
  rfl

theorem opened_of_left {id left : ℕ} {question : Question}
    {now : Circumstances} {before after : Shared} {reply : question.Answer}
    (hturn : perform jobs id question now before = some (reply, after))
    (houtside : question.inSession = false)
    (hleft : 0 < sessions.remember left ⟨question, reply⟩) :
    question.opensSession = true ∧ ¬ goesWithout question now := by
  cases question with
  | selectOverride userId =>
      refine ⟨rfl, fun hwithout => ?_⟩
      simp only [perform] at hturn
      split at hturn
      · obtain ⟨rfl, -⟩ := Prod.mk.inj (Option.some.inj hturn)
        cases hleft
      · next hnone => exact hwithout hnone
  | selectQuota userId =>
      refine ⟨rfl, fun hwithout => ?_⟩
      simp only [perform, Circumstances.query] at hturn
      split at hturn
      · obtain ⟨rfl, -⟩ := Prod.mk.inj (Option.some.inj hturn)
        cases hleft
      · next hnone => exact hwithout hnone
  | utcNow => cases houtside
  | _ => cases hleft

theorem not_poolFull_of_opened {before after : Fleet}
    {input : ℕ × Circumstances} {turn : Turn Question.Answer}
    (hpast : History (fleetMachine jobs) (fleetStart jobs shared) history
      before)
    (hstep : fleetMachine jobs before input = some (turn, after))
    (hadmitted : Admitted jobs ⟨before, input, turn, after⟩)
    (hheld : holdsSession before input.1 = false)
    (hholds : holdsSession after input.1 = true) :
    ¬ PoolFull jobs before (jobs input.1).worker := by
  obtain ⟨resume, hprocess, hturn, -⟩ := interleaved_cases hstep
  have hleft := left_of_holdsSession
    (sessions_of_history (.next hpast hstep) input.1) hholds
  rw [turnsOf_cons, if_pos rfl] at hleft
  rw [holdsSession_of_await hprocess] at hheld
  obtain ⟨hopens, hgiven⟩ := opened_of_left hturn hheld hleft
  exact fun hfull => hgiven (hadmitted hopens hfull)

theorem holders_card_le
    (h : History (fleetMachine jobs) (fleetStart jobs shared) history last)
    (hpooled : Pooled jobs history) {worker : ℕ} {holders : Finset ℕ}
    (hholders : Holders jobs last worker holders) :
    holders.card ≤ poolSize := by
  induction h generalizing holders with
  | start =>
      have hnone : holders = ∅ := by
        refine Finset.eq_empty_of_forall_notMem fun id hmem => ?_
        exact absurd (left_of_holdsSession ((jobs id).app.sessions_requestTask
          (jobs id).front (jobs id).request) (hholders.holdsSession_eq id hmem))
          (Nat.lt_irrefl 0)
      rw [hnone]
      exact Nat.zero_le _
  | @next past before after input turn hpast hstep ih =>
      have hpooled' : Pooled jobs past := fun entry hmem =>
        hpooled entry (List.mem_cons_of_mem _ hmem)
      have hothers : ∀ id ∈ holders.erase input.1,
          holdsSession after id = holdsSession before id := fun id hmem =>
        holdsSession_of_ne hstep (Finset.ne_of_mem_erase hmem)
      have hbefore : Holders jobs before worker (holders.erase input.1) :=
        hholders.mono (Finset.erase_subset _ _) hothers
      by_cases hself : input.1 ∈ holders
      · cases hheld : holdsSession before input.1 with
        | true =>
            -- whoever goes on in its session has been counted before
            refine ih hpooled' (hholders.mono subset_rfl fun id hmem => ?_)
            by_cases hid : id = input.1
            · rw [hid, hheld, hholders.holdsSession_eq _ hself]
            · exact holdsSession_of_ne hstep hid
        | false =>
            -- a session has been opened, so there has been one left
            have hroom := not_poolFull_of_opened hpast hstep
              (hpooled _ List.mem_cons_self) hheld
              (hholders.holdsSession_eq _ hself)
            rw [hholders.worker_eq _ hself] at hroom
            by_contra hmore
            refine hroom ⟨_, hbefore, ?_⟩
            rw [Finset.card_erase_of_mem hself]
            omega
      · rw [← Finset.erase_eq_of_notMem hself]
        exact ih hpooled' hbefore

/-! ## No deadlock -/

theorem writesBreaker_eq_false {question : Question}
    (hsession : question.inSession = true) :
    question.writesBreaker = false := by
  cases question with
  | utcNow => rfl
  | check userId baseLimit healthFactor => rfl
  | commitQuota userId existing body => rfl
  | _ => cases hsession

theorem exists_turn_inSession (jobs : ℕ → Job) {fleet : Fleet} {id : ℕ}
    (now : Circumstances) (hholds : holdsSession fleet id = true) :
    ∃ turn after, fleetMachine jobs fleet (id, now) = some (turn, after) ∧
      turn.1.inSession = true := by
  cases hprocess : fleet.process id with
  | done served => simp [holdsSession, awaits, hprocess] at hholds
  | await question resume =>
      rw [holdsSession_of_await hprocess] at hholds
      have hcan : ∃ answered,
          perform jobs id question now fleet.shared = some answered := by
        cases question with
        | utcNow => exact ⟨_, rfl⟩
        | check userId baseLimit healthFactor => exact ⟨_, rfl⟩
        | commitQuota userId existing body =>
            simp only [perform]
            split <;> exact ⟨_, rfl⟩
        | _ => cases hholds
      obtain ⟨⟨reply, after⟩, hturn⟩ := hcan
      simp [fleetMachine, interleaved, hprocess, hturn, hholds]

theorem exists_leaving (jobs : ℕ → Job) {fleet : Fleet} {holder left : ℕ}
    (now : Circumstances)
    (hkeeps : Keeps sessions (fun _ _ => True) (fleet.process holder) left) :
    ∃ later freed, History (fleetMachine jobs) fleet later freed ∧
      later.length ≤ left ∧ holdsSession freed holder = false ∧
      ∀ entry ∈ later, entry.input = (holder, now) ∧
        entry.output.1.inSession = true := by
  induction left using Nat.strong_induction_on generalizing fleet with
  | _ left ih =>
      cases hholds : holdsSession fleet holder with
      | false =>
          refine ⟨[], fleet, .start, Nat.zero_le _, hholds, ?_⟩
          intro entry hmem
          cases hmem
      | true =>
          have hleft := left_of_holdsSession hkeeps hholds
          obtain ⟨turn, middle, hstep, hsession⟩ :=
            exists_turn_inSession jobs now hholds
          have hfirst : History (fleetMachine jobs) fleet
              [⟨fleet, (holder, now), turn, middle⟩] middle :=
            .next .start hstep
          have hrest := hkeeps.leads (leads_of_history hfirst holder)
            fun _ _ => trivial
          rw [turnsOf_cons, if_pos rfl] at hrest
          have hless := sessions_remember_lt hsession hleft
          obtain ⟨later, freed, hlater, hlength, hfreed, hown⟩ :=
            ih _ hless hrest
          refine ⟨_, freed, History.append_iff.mpr ⟨middle, hfirst, hlater⟩, ?_,
            hfreed, ?_⟩
          · rw [List.length_append, List.length_singleton]
            exact (Nat.succ_le_succ hlength).trans hless
          · intro entry hmem
            rcases List.mem_append.mp hmem with hmem | hmem
            · exact hown entry hmem
            · rw [List.mem_singleton.mp hmem]
              exact ⟨rfl, hsession⟩

theorem breakers_of_inSession {first : Fleet}
    (h : History (fleetMachine jobs) first history last)
    (hsession : ∀ entry ∈ history, entry.output.1.inSession = true) :
    last.shared.breakers = first.shared.breakers := by
  induction h with
  | start => rfl
  | @next past before after input turn hpast hstep ih =>
      obtain ⟨resume, -, hturn, -⟩ := interleaved_cases hstep
      have hframe := (perform_frame hturn).2.2.1
      rw [hframe (writesBreaker_eq_false (hsession _ List.mem_cons_self))]
      exact ih fun entry hmem => hsession entry (List.mem_cons_of_mem _ hmem)

theorem process_of_others {first : Fleet} {id : ℕ}
    (h : History (fleetMachine jobs) first history last)
    (hothers : ∀ entry ∈ history, entry.input.1 ≠ id) :
    last.process id = first.process id := by
  have hleads := leads_of_history h id
  have hnone : turnsOf id history = [] := by
    simpa [turnsOf] using hothers
  rw [hnone] at hleads
  exact hleads.eq_of_nil

theorem not_poolFull_of_freed {freed : Fleet} {later : List FleetEntry}
    {holder : ℕ}
    (h : History (fleetMachine jobs) (fleetStart jobs shared) history last)
    (hpooled : Pooled jobs history) (hholds : holdsSession last holder = true)
    (hlater : History (fleetMachine jobs) last later freed)
    (hown : ∀ entry ∈ later, entry.input.1 = holder)
    (hfreed : holdsSession freed holder = false) :
    ¬ PoolFull jobs freed (jobs holder).worker := by
  rintro ⟨holders, hholders, hmany⟩
  have hnot : holder ∉ holders := by
    intro hmem
    rw [hholders.holdsSession_eq holder hmem] at hfreed
    cases hfreed
  have hwith : Holders jobs last (jobs holder).worker
      (insert holder holders) := by
    constructor <;> intro id hmem <;>
      rcases Finset.mem_insert.mp hmem with rfl | hmem
    · rfl
    · exact hholders.worker_eq id hmem
    · exact hholds
    · have hsame := process_of_others hlater fun entry hentry =>
        hown entry hentry ▸ (ne_of_mem_of_not_mem hmem hnot).symm
      rw [holdsSession, awaits, ← hsame]
      exact hholders.holdsSession_eq id hmem
  have hcard := holders_card_le h hpooled hwith
  rw [Finset.card_insert_of_notMem hnot] at hcard
  omega

/--
Nothing in the gateway stops for good: whatever happens in between, a request
ends after eight turns of its own.  Before that, it can take its next turn at
any time that its worker's clock has not passed, unless it is to begin a session
while the pool of its worker is empty; then it can take it after at most two
turns, which can be taken at once, of any one of those who keep a session.
-/
theorem goes_on (hstart : ∀ worker, (shared.breakers worker).WellNumbered)
    (hidle : ∀ worker, (shared.breakers worker).running = [])
    (h : History (fleetMachine jobs) (fleetStart jobs shared) history last)
    (hpooled : Pooled jobs history) (id : ℕ) :
    (turnsOf id history).length ≤ 8 ∧
      ((∃ served, last.process id = .done served) ∨
        ∀ now : Circumstances,
          (last.shared.breakers (jobs id).worker).clock ≤ now.monotonic →
          CanGoOn jobs last id now ∨
            PoolFull jobs last (jobs id).worker ∧
              ∀ holder, (jobs holder).worker = (jobs id).worker →
                holdsSession last holder = true →
                ∃ later freed,
                  History (fleetMachine jobs) last later freed ∧
                    Pooled jobs later ∧ later.length ≤ 2 ∧
                    (∀ entry ∈ later, entry.input = (holder, now)) ∧
                    CanGoOn jobs freed id now) := by
  refine ⟨length_turnsOf_le h id, ?_⟩
  cases hprocess : last.process id with
  | done served => exact .inl ⟨served, rfl⟩
  | await question resume =>
      refine .inr fun now hclock => ?_
      obtain ⟨reply, after, hstep⟩ := exists_turn hstart hidle h hprocess hclock
      by_cases hadmitted :
          Admitted jobs ⟨last, (id, now), ⟨question, reply⟩, after⟩
      · exact .inl ⟨_, _, hstep, hadmitted⟩
      · have hopens : question.opensSession = true := by
          by_contra hopens
          exact hadmitted fun h => absurd h hopens
        have hfull : PoolFull jobs last (jobs id).worker := by
          by_contra hroom
          exact hadmitted fun _ h => absurd h hroom
        refine .inr ⟨hfull, fun holder hworker hholds => ?_⟩
        obtain ⟨later, freed, hlater, hlength, hfreed, hturns⟩ :=
          exists_leaving jobs now (sessions_of_history h holder)
        have hown : ∀ entry ∈ later, entry.input.1 = holder := fun entry hmem =>
          congrArg Prod.fst (hturns entry hmem).1
        have hsession : ∀ entry ∈ later, entry.output.1.inSession = true :=
          fun entry hmem => (hturns entry hmem).2
        have hne : holder ≠ id := by
          rintro rfl
          rw [holdsSession_of_await hprocess] at hholds
          rw [opensSession_eq_false hholds] at hopens
          cases hopens
        have hroom := not_poolFull_of_freed h hpooled hholds hlater hown hfreed
        rw [hworker] at hroom
        have hwaiting := process_of_others hlater fun entry hmem =>
          hown entry hmem ▸ hne
        obtain ⟨reply', after', hstep'⟩ := exists_turn hstart hidle
          (History.append_iff.mpr ⟨last, h, hlater⟩) (hwaiting.trans hprocess)
          (breakers_of_inSession hlater hsession ▸ hclock)
        refine ⟨later, freed, hlater, fun entry hmem hopening => ?_,
          hlength.trans (sessions_remember_le _),
          fun entry hmem => (hturns entry hmem).1, _, after', hstep',
          fun _ hfull' => absurd hfull' hroom⟩
        rw [opensSession_eq_false (hsession entry hmem)] at hopening
        cases hopening

/-! ## Sixteen requests of one worker -/

theorem pooled_of_few
    (h : History (fleetMachine jobs) (fleetStart jobs shared) history last)
    (hfew : ∀ entry ∈ history, entry.output.1.opensSession = true →
      entry.input.1 < poolSize) : Pooled jobs history := by
  rintro entry hmem hopens ⟨holders, hholders, hmany⟩
  exfalso
  obtain ⟨later, earlier, rfl⟩ := List.append_of_mem hmem
  obtain ⟨hearlier, hstep, -⟩ := h.at_entry
  obtain ⟨resume, hprocess, -, -⟩ := interleaved_cases hstep
  have hbelow : holders ⊆ (Finset.range poolSize).erase entry.input.1 := by
    intro id hid
    have hholds := hholders.holdsSession_eq id hid
    refine Finset.mem_erase.mpr ⟨?_, Finset.mem_range.mpr ?_⟩
    · rintro rfl
      rw [holdsSession_of_await hprocess] at hholds
      rw [opensSession_eq_false hholds] at hopens
      cases hopens
    · have hleft := left_of_holdsSession (sessions_of_history hearlier id)
        hholds
      obtain ⟨turn, hturn, hopened⟩ := exists_opensSession hleft
      obtain ⟨opening, hopening, rfl⟩ := List.mem_map.mp hturn
      obtain ⟨hopening, hown⟩ := List.mem_filter.mp hopening
      rw [← of_decide_eq_true hown]
      exact hfew opening (List.mem_append_right _
        (List.mem_cons_of_mem _ hopening)) hopened
  have hcard := Finset.card_le_card hbelow
  rw [Finset.card_erase_of_mem (Finset.mem_range.mpr (hfew entry hmem hopens)),
    Finset.card_range] at hcard
  have hpositive : 0 < poolSize := by decide
  omega

def crowded : List FleetEntry × Fleet :=
  played (fleetMachine aliceJobs) (fleetStart aliceJobs idle)
    (((List.range 15).flatMap fun id => [(id, calm), (id, calm)]) ++
      [(15, calm)])

theorem not_goesWithout_calm (question : Question) :
    ¬ goesWithout question calm := by
  cases question <;> simp [goesWithout, calm]

theorem goes_on_crowded :
    PoolFull aliceJobs crowded.2 0 ∧
      ∃ later freed, History (fleetMachine aliceJobs) crowded.2 later freed ∧
        (∀ entry ∈ later, entry.input = (3, calm)) ∧
        CanGoOn aliceJobs freed 15 calm := by
  have h : History (fleetMachine aliceJobs) (fleetStart aliceJobs idle)
      crowded.1 crowded.2 := history_played (by decide +kernel)
  have hfew : (crowded.1.all fun entry =>
      !entry.output.1.opensSession || decide (entry.input.1 < poolSize)) =
        true := by decide +kernel
  have hpooled : Pooled aliceJobs crowded.1 := by
    refine pooled_of_few h fun entry hmem hopens => ?_
    simpa [hopens] using List.all_eq_true.mp hfew entry hmem
  have hholds : ((List.range 15).all fun id =>
      holdsSession crowded.2 id) = true := by decide +kernel
  have hfull : PoolFull aliceJobs crowded.2 0 :=
    ⟨Finset.range 15, ⟨fun _ _ => rfl, fun id hmem =>
      List.all_eq_true.mp hholds id
        (List.mem_range.mpr (Finset.mem_range.mp hmem))⟩, by simp [poolSize]⟩
  have hopening : awaits Question.opensSession crowded.2 15 = true := by
    decide +kernel
  have hfresh : ∀ worker, (idle.breakers worker).WellNumbered := fun _ =>
    ⟨Calls.fresh_numbered 0, List.nodup_nil⟩
  obtain ⟨-, ⟨served, hdone⟩ | hnext⟩ :=
    goes_on hfresh (fun _ => rfl) h hpooled 15
  · rw [awaits, hdone] at hopening
    cases hopening
  · obtain ⟨turn, after, hstep, hadmitted⟩ | ⟨-, hholders⟩ :=
      hnext calm (by decide +kernel)
    · obtain ⟨resume, hprocess, -, -⟩ := interleaved_cases hstep
      rw [awaits, hprocess] at hopening
      exact absurd (hadmitted hopening hfull) (not_goesWithout_calm _)
    · obtain ⟨later, freed, hlater, -, -, hown, hgoes⟩ :=
        hholders 3 rfl (by decide +kernel)
      exact ⟨hfull, later, freed, hlater, hown, hgoes⟩

end RateLimitedGateway.Main
