import Mathlib.Algebra.Order.BigOperators.Group.List
import Mathlib.Algebra.Ring.Nat
import Mathlib.Logic.Function.Basic
import RateLimitedGateway.Foundation.History

/-!
# Coroutines that share a state

A coroutine ends, or awaits the answer to a question and goes on with it.  Any
number of them run on one state; between two of its turns a coroutine sees
nothing of the others.  What a coroutine asks, given what it is answered, is a
contract that is proved along its text; that contracts and an invariant of the
state support each other is proved here once, for every interleaving.
-/

namespace RateLimitedGateway.Foundation

variable {ε : Type} {answer : ε → Type} {α β τ : Type}

inductive Coroutine (ε : Type) (answer : ε → Type) (α : Type) where
  | done (result : α)
  | await (question : ε) (resume : answer question → Coroutine ε answer α)

abbrev Turn (answer : ε → Type) := (question : ε) × answer question

namespace Coroutine

def bind : Coroutine ε answer α → (α → Coroutine ε answer β) →
    Coroutine ε answer β
  | done result, next => next result
  | await question resume, next =>
      await question fun reply => (resume reply).bind next

instance : Monad (Coroutine ε answer) where
  pure := done
  bind := bind

def ask (question : ε) : Coroutine ε answer (answer question) :=
  await question done

def result? : Coroutine ε answer α → Option α
  | done result => some result
  | await _ _ => none

theorem exists_done {program : Coroutine ε answer α}
    (h : program.result?.isSome = true) : ∃ result, program = done result := by
  cases program with
  | done result => exact ⟨result, rfl⟩
  | await question resume => cases h

@[simp] theorem bind_pure (result : α) (next : α → Coroutine ε answer β) :
    (pure result >>= next) = next result := rfl

@[simp] theorem bind_await (question : ε)
    (resume : answer question → Coroutine ε answer α)
    (next : α → Coroutine ε answer β) :
    (await question resume >>= next) =
      await question fun reply => resume reply >>= next := rfl

@[simp] theorem bind_ask (question : ε)
    (next : answer question → Coroutine ε answer β) :
    (ask question >>= next) = await question next := rfl

/-! ## Turns -/

inductive Leads (first : Coroutine ε answer α) :
    List (Turn answer) → Coroutine ε answer α → Prop
  | start : Leads first [] first
  | next {turns : List (Turn answer)} {question : ε}
      {resume : answer question → Coroutine ε answer α}
      (hpast : Leads first turns (await question resume))
      (reply : answer question) :
      Leads first (⟨question, reply⟩ :: turns) (resume reply)

theorem Leads.eq_of_nil {first last : Coroutine ε answer α}
    (h : Leads first [] last) : last = first := by
  cases h
  rfl

/-! ## Contracts -/

/--
Which questions a coroutine may put, given a memory of its turns, and which
answers it may rely on.
-/
structure Contract (answer : ε → Type) (τ : Type) where
  allows : τ → ε → Prop
  promises : (question : ε) → answer question → Prop
  remember : τ → Turn answer → τ

def Keeps (contract : Contract answer τ) (ends : τ → α → Prop) :
    Coroutine ε answer α → τ → Prop
  | done result, memory => ends memory result
  | await question resume, memory =>
      contract.allows memory question ∧
        ∀ reply, contract.promises question reply →
          Keeps contract ends (resume reply)
            (contract.remember memory ⟨question, reply⟩)

namespace Contract

def rememberAll (contract : Contract answer τ) (memory : τ) :
    List (Turn answer) → τ
  | [] => memory
  | turn :: turns => contract.remember (contract.rememberAll memory turns) turn

end Contract

section Keeps

variable {contract : Contract answer τ} {ends : τ → α → Prop}
variable {middle : τ → β → Prop} {memory : τ}

theorem keeps_pure {result : α} (h : ends memory result) :
    Keeps contract ends (pure result) memory := h

theorem keeps_await {question : ε}
    {resume : answer question → Coroutine ε answer α}
    (hallowed : contract.allows memory question)
    (hresume : ∀ reply, contract.promises question reply →
      Keeps contract ends (resume reply)
        (contract.remember memory ⟨question, reply⟩)) :
    Keeps contract ends (await question resume) memory :=
  ⟨hallowed, hresume⟩

theorem Keeps.bind {first : Coroutine ε answer β}
    {next : β → Coroutine ε answer α}
    (hfirst : Keeps contract middle first memory)
    (hnext : ∀ memory result, middle memory result →
      Keeps contract ends (next result) memory) :
    Keeps contract ends (first >>= next) memory := by
  induction first generalizing memory with
  | done result => exact hnext memory result hfirst
  | await question resume ih =>
      obtain ⟨hallowed, hresume⟩ := hfirst
      exact ⟨hallowed, fun reply hreply => ih reply (hresume reply hreply)⟩

theorem Keeps.followed {first : Coroutine ε answer β}
    {next : β → Coroutine ε answer α}
    (hfirst : Keeps contract (fun _ _ => True) first memory)
    (hnext : ∀ memory result, Keeps contract ends (next result) memory) :
    Keeps contract ends (first >>= next) memory :=
  hfirst.bind fun memory result _ => hnext memory result

theorem Keeps.weaken {ends' : τ → α → Prop} {program : Coroutine ε answer α}
    (h : Keeps contract ends program memory)
    (hends : ∀ memory result, ends memory result → ends' memory result) :
    Keeps contract ends' program memory := by
  induction program generalizing memory with
  | done result => exact hends memory result h
  | await question resume ih =>
      exact ⟨h.1, fun reply hreply => ih reply (h.2 reply hreply)⟩

theorem Keeps.leads {first last : Coroutine ε answer α}
    {turns : List (Turn answer)} (h : Keeps contract ends first memory)
    (hleads : Leads first turns last)
    (hpromised : ∀ turn ∈ turns, contract.promises turn.1 turn.2) :
    Keeps contract ends last (contract.rememberAll memory turns) := by
  induction hleads with
  | start => exact h
  | next _ reply ih =>
      have hpast := ih fun turn hmem =>
        hpromised turn (List.mem_cons_of_mem _ hmem)
      exact hpast.2 reply (hpromised _ List.mem_cons_self)

end Keeps

/-! ## Questions of one kind -/

def asking (kind : ε → Prop) : Contract answer Unit where
  allows _ question := kind question
  promises _ _ := True
  remember _ _ := ()

theorem Keeps.asking_mono {kind kind' : ε → Prop}
    {program : Coroutine ε answer α}
    (h : Keeps (asking kind) (fun _ _ => True) program ())
    (hkind : ∀ question, kind question → kind' question) :
    Keeps (asking kind') (fun _ _ => True) program () := by
  induction program with
  | done result => trivial
  | await question resume ih =>
      exact ⟨hkind question h.1, fun reply _ => ih reply (h.2 reply trivial)⟩

theorem Keeps.together {base : Contract answer Unit}
    {contract : Contract answer τ} {ends : τ → α → Prop}
    {ends' : Unit → α → Prop} {program : Coroutine ε answer α} {memory : τ}
    (h : Keeps contract ends program memory)
    (hbase : Keeps base ends' program ())
    (hpromises : ∀ question reply, contract.promises question reply →
      base.promises question reply) :
    Keeps contract (fun rest result => ends rest result ∧ ends' () result)
      program memory := by
  induction program generalizing memory with
  | done result => exact ⟨h, hbase⟩
  | await question resume ih =>
      refine ⟨h.1, fun reply hreply => ?_⟩
      exact ih reply (h.2 reply hreply)
        (hbase.2 reply (hpromises question reply hreply))

theorem Keeps.of_asking {contract : Contract answer τ} {kind : ε → Prop}
    {ends : Unit → α → Prop} {program : Coroutine ε answer α} {memory : τ}
    (h : Keeps (asking kind) ends program ())
    (hkind : ∀ question, kind question → contract.allows memory question ∧
      ∀ reply, contract.remember memory ⟨question, reply⟩ = memory) :
    Keeps contract (fun rest result => rest = memory ∧ ends () result)
      program memory := by
  induction program with
  | done result => exact ⟨rfl, h⟩
  | await question resume ih =>
      obtain ⟨hallowed, hsame⟩ := hkind question h.1
      refine ⟨hallowed, fun reply _ => ?_⟩
      rw [hsame reply]
      exact ih reply (h.2 reply trivial)

/-! ## Questions in order -/

def ordering (follows : τ → ε → Prop) (next : Turn answer → τ) :
    Contract answer τ where
  allows := follows
  promises _ _ := True
  remember _ turn := next turn

def InOrder (follows : τ → ε → Prop) (next : Turn answer → τ) (start : τ) :
    List (Turn answer) → Prop
  | [] => True
  | turn :: earlier =>
      follows ((earlier.head?.map next).getD start) turn.1 ∧
        InOrder follows next start earlier

theorem InOrder.of_append {follows : τ → ε → Prop} {next : Turn answer → τ}
    {start : τ} {later earlier : List (Turn answer)}
    (h : InOrder follows next start (later ++ earlier)) :
    InOrder follows next start earlier := by
  induction later with
  | nil => exact h
  | cons turn later ih => exact ih h.2

theorem inOrder_of_leads {follows : τ → ε → Prop} {next : Turn answer → τ}
    {ends : τ → α → Prop} {start : τ} {first last : Coroutine ε answer α}
    {turns : List (Turn answer)}
    (h : Keeps (ordering follows next) ends first start)
    (hleads : Leads first turns last) : InOrder follows next start turns := by
  have hremembered : ∀ turns : List (Turn answer),
      (ordering follows next).rememberAll start turns =
        (turns.head?.map next).getD start := by
    rintro (_ | ⟨turn, earlier⟩) <;> rfl
  induction hleads with
  | start => trivial
  | @next turns question resume hpast reply ih =>
      refine ⟨?_, ih⟩
      rw [← hremembered]
      exact (h.leads hpast fun _ _ => trivial).1

/-! ## Budgets -/

/-- Turns that cost are paid for by turns that gain; the memory is the rest. -/
def budget (promises : (question : ε) → answer question → Prop)
    (gain cost : Turn answer → ℕ) : Contract answer ℕ where
  allows rest question := ∀ reply, promises question reply →
    cost ⟨question, reply⟩ ≤ rest + gain ⟨question, reply⟩
  promises := promises
  remember rest turn := rest + gain turn - cost turn

theorem cost_le_gain {promises : (question : ε) → answer question → Prop}
    {gain cost : Turn answer → ℕ} {ends : ℕ → α → Prop} {rest : ℕ}
    {first last : Coroutine ε answer α} {turns : List (Turn answer)}
    (h : Keeps (budget promises gain cost) ends first rest)
    (hleads : Leads first turns last)
    (hpromised : ∀ turn ∈ turns, promises turn.1 turn.2) :
    (turns.map cost).sum +
        (budget promises gain cost).rememberAll rest turns =
      rest + (turns.map gain).sum := by
  induction hleads with
  | start => simp [Contract.rememberAll]
  | @next turns question resume hpast reply ih =>
      have hearlier : ∀ turn ∈ turns, promises turn.1 turn.2 :=
        fun turn hmem => hpromised turn (List.mem_cons_of_mem _ hmem)
      have hbalance := ih hearlier
      have hafford : cost ⟨question, reply⟩ ≤
          (budget promises gain cost).rememberAll rest turns +
            gain ⟨question, reply⟩ :=
        (h.leads hpast hearlier).1 reply (hpromised _ List.mem_cons_self)
      simp only [List.map_cons, List.sum_cons, Contract.rememberAll]
      have hremember : (budget promises gain cost).remember
          ((budget promises gain cost).rememberAll rest turns)
            ⟨question, reply⟩ =
          (budget promises gain cost).rememberAll rest turns +
            gain ⟨question, reply⟩ - cost ⟨question, reply⟩ := rfl
      omega

end Coroutine

/-! ## Interleaving -/

section Interleaving

variable {σ κ ν : Type} [DecidableEq κ]

structure Processes (σ κ : Type) (answer : ε → Type) (α : Type) where
  shared : σ
  process : κ → Coroutine ε answer α

/--
What one turn does: it is taken in the given circumstances, which decide the
answer together with the shared state.  `none` if it cannot be taken so.
-/
abbrev Performance (σ κ ν : Type) (answer : ε → Type) :=
  κ → (question : ε) → ν → σ → Option (answer question × σ)

def interleaved (perform : Performance σ κ ν answer) :
    Machine (Processes σ κ answer α) (κ × ν) (Turn answer) := fun state input =>
  match state.process input.1 with
  | .done _ => none
  | .await question resume =>
      match perform input.1 question input.2 state.shared with
      | none => none
      | some (reply, shared) =>
          some (⟨question, reply⟩,
            { shared := shared
              process := Function.update state.process input.1 (resume reply) })

variable {perform : Performance σ κ ν answer}

theorem interleaved_cases {before after : Processes σ κ answer α}
    {input : κ × ν} {turn : Turn answer}
    (hstep : interleaved perform before input = some (turn, after)) :
    ∃ resume, before.process input.1 = .await turn.1 resume ∧
      perform input.1 turn.1 input.2 before.shared =
        some (turn.2, after.shared) ∧
      after.process =
        Function.update before.process input.1 (resume turn.2) := by
  simp only [interleaved] at hstep
  split at hstep
  · cases hstep
  · next question resume hprocess =>
      split at hstep
      · cases hstep
      · next reply shared hperform =>
          simp only [Option.some_inj, Prod.mk.injEq] at hstep
          obtain ⟨rfl, rfl⟩ := hstep
          exact ⟨resume, hprocess, hperform, rfl⟩

abbrev TurnEntry (σ κ ν : Type) (answer : ε → Type) (α : Type) :=
  Entry (Processes σ κ answer α) (κ × ν) (Turn answer)

def turnsOf (id : κ) (history : List (TurnEntry σ κ ν answer α)) :
    List (Turn answer) :=
  (history.filter (·.input.1 = id)).map (·.output)

variable {first last : Processes σ κ answer α}
variable {history : List (TurnEntry σ κ ν answer α)}

theorem turnsOf_cons (id : κ) (entry : TurnEntry σ κ ν answer α) :
    turnsOf id (entry :: history) =
      if entry.input.1 = id then entry.output :: turnsOf id history
      else turnsOf id history := by
  by_cases hid : entry.input.1 = id <;> simp [turnsOf, hid]

/-- No process is disturbed by the others. -/
theorem leads_of_history (h : History (interleaved perform) first history last)
    (id : κ) :
    (first.process id).Leads (turnsOf id history) (last.process id) := by
  induction h with
  | start => exact .start
  | @next past before after input turn _ hstep ih =>
      obtain ⟨resume, hprocess, -, hafter⟩ := interleaved_cases hstep
      rw [turnsOf_cons, hafter]
      by_cases hid : input.1 = id
      · subst hid
        rw [if_pos rfl, Function.update_self]
        rw [hprocess] at ih
        exact ih.next turn.2
      · rw [if_neg hid, Function.update_of_ne (Ne.symm hid)]
        exact ih

open Coroutine in
/--
Reliance and guarantee: if answers given under the invariant are the promised
ones and allowed questions preserve it, then every process keeps its contract
and the invariant holds throughout.
-/
theorem keeps_of_history {P : σ → Prop} (contract : κ → Contract answer τ)
    {ends : κ → τ → α → Prop} (memory : κ → τ) (hfirst : P first.shared)
    (hkeeps : ∀ id,
      Keeps (contract id) (ends id) (first.process id) (memory id))
    (hperform : ∀ id memory question circumstances shared reply after,
      P shared → (contract id).allows memory question →
      perform id question circumstances shared = some (reply, after) →
      P after ∧ (contract id).promises question reply)
    (h : History (interleaved perform) first history last) :
    P last.shared ∧
      (∀ entry ∈ history, P entry.before.shared ∧
        (contract entry.input.1).promises entry.output.1 entry.output.2 ∧
        ∃ memory, (contract entry.input.1).allows memory entry.output.1) ∧
      ∀ id, Keeps (contract id) (ends id) (last.process id)
        ((contract id).rememberAll (memory id) (turnsOf id history)) := by
  induction h with
  | start => exact ⟨hfirst, by simp, hkeeps⟩
  | @next past before after input turn _ hstep ih =>
      obtain ⟨hbefore, hpast, hprocesses⟩ := ih
      obtain ⟨resume, hprocess, hturn, hafter⟩ := interleaved_cases hstep
      have hkept := hprocesses input.1
      rw [hprocess] at hkept
      obtain ⟨hallowed, hresume⟩ := hkept
      obtain ⟨hshared, hpromised⟩ :=
        hperform _ _ _ _ _ _ _ hbefore hallowed hturn
      refine ⟨hshared, ?_, ?_⟩
      · intro entry hmem
        rcases List.mem_cons.mp hmem with rfl | hmem
        · exact ⟨hbefore, hpromised, _, hallowed⟩
        · exact hpast entry hmem
      · intro id
        rw [turnsOf_cons, hafter]
        by_cases hid : input.1 = id
        · subst hid
          rw [if_pos rfl, Function.update_self]
          exact hresume turn.2 hpromised
        · rw [if_neg hid, Function.update_of_ne (Ne.symm hid)]
          exact hprocesses id

open Coroutine in
theorem allowed_of_history {contract : Contract answer τ} {ends : τ → α → Prop}
    {memory : τ} {entry : TurnEntry σ κ ν answer α}
    {later earlier : List (TurnEntry σ κ ν answer α)}
    (h : History (interleaved perform) first (later ++ entry :: earlier) last)
    (hkeeps : Keeps contract ends (first.process entry.input.1) memory)
    (hpromised : ∀ turn ∈ turnsOf entry.input.1 earlier,
      contract.promises turn.1 turn.2) :
    contract.allows
      (contract.rememberAll memory (turnsOf entry.input.1 earlier))
      entry.output.1 := by
  obtain ⟨hearlier, hstep, -⟩ := h.at_entry
  obtain ⟨resume, hprocess, -⟩ := interleaved_cases hstep
  have hkept := hkeeps.leads (leads_of_history hearlier entry.input.1) hpromised
  rw [hprocess] at hkept
  exact hkept.1

/-! ## Adding up over the processes -/

theorem sum_le_sum_of_keys {γ : Type} (key : γ → κ) (f g : γ → ℕ) (l : List γ)
    (h : ∀ k, ((l.filter (key · = k)).map f).sum ≤
      ((l.filter (key · = k)).map g).sum) :
    (l.map f).sum ≤ (l.map g).sum := by
  induction hn : l.length using Nat.strong_induction_on generalizing l with
  | _ n ih =>
      cases l with
      | nil => rfl
      | cons x l =>
          let others := (x :: l).filter fun y => !decide (key y = key x)
          have hshorter : others.length < n := by
            rw [← hn]
            apply List.length_filter_lt_length_iff_exists.mpr
            exact ⟨x, List.mem_cons_self, by simp⟩
          have hothers := ih _ hshorter others (fun k => by
            by_cases hk : k = key x
            · have hnone : others.filter (key · = k) = [] := by
                rw [List.filter_eq_nil_iff]
                intro y hy
                simpa [hk] using (List.mem_filter.mp hy).2
              rw [hnone]
              simp
            · have hsame : others.filter (key · = k) =
                  (x :: l).filter (key · = k) := by
                simp only [others, List.filter_filter]
                apply List.filter_congr
                intro y _
                by_cases hy : key y = k
                · simp [hy, hk]
                · simp [hy]
              rw [hsame]
              exact h k) rfl
          have hsplit : ∀ f : γ → ℕ, ((x :: l).map f).sum =
              (((x :: l).filter (key · = key x)).map f).sum +
                (others.map f).sum := by
            intro f
            have hperm := List.filter_append_perm
              (fun y => decide (key y = key x)) (x :: l)
            rw [← (hperm.map f).sum_eq, List.map_append, List.sum_append]
          rw [hsplit f, hsplit g]
          exact Nat.add_le_add (h (key x)) hothers

section Balance

open Coroutine

variable (promises : κ → (question : ε) → answer question → Prop)
variable (gain cost : Turn answer → ℕ)

theorem balance_of_history {ends : ℕ → α → Prop} {id : κ}
    (h : History (interleaved perform) first history last)
    (hkeeps : Keeps (budget (promises id) gain cost) ends (first.process id) 0)
    (hpromised : ∀ entry ∈ history,
      promises entry.input.1 entry.output.1 entry.output.2) :
    ∃ rest, Keeps (budget (promises id) gain cost) ends (last.process id) rest ∧
      ((history.filter (·.input.1 = id)).map (cost ·.output)).sum + rest =
        ((history.filter (·.input.1 = id)).map (gain ·.output)).sum := by
  have hturns : ∀ turn ∈ turnsOf id history,
      promises id turn.1 turn.2 := by
    intro turn hmem
    obtain ⟨entry, hentry, rfl⟩ := List.mem_map.mp hmem
    obtain ⟨hpast, hid⟩ := List.mem_filter.mp hentry
    rw [← of_decide_eq_true hid]
    exact hpromised entry hpast
  have hleads := leads_of_history h id
  have hbalance := cost_le_gain hkeeps hleads hturns
  simp only [turnsOf, List.map_map, Function.comp_def, Nat.zero_add] at hbalance
  exact ⟨_, hkeeps.leads hleads hturns, hbalance⟩

theorem filter_group (group : κ → Bool) (id : κ)
    (history : List (TurnEntry σ κ ν answer α)) :
    (history.filter (group ·.input.1)).filter (·.input.1 = id) =
      if group id then history.filter (·.input.1 = id) else [] := by
  rw [List.filter_filter]
  cases hid : group id with
  | true =>
      rw [if_pos rfl]
      apply List.filter_congr
      intro entry _
      by_cases hentry : entry.input.1 = id <;> simp [hentry, hid]
  | false =>
      rw [if_neg Bool.false_ne_true, List.filter_eq_nil_iff]
      intro entry _
      by_cases hentry : entry.input.1 = id <;> simp [hentry, hid]

/-- The processes of a group, each within its budget, are so together. -/
theorem cost_le_gain_of_history {ends : κ → ℕ → α → Prop} (group : κ → Bool)
    (h : History (interleaved perform) first history last)
    (hkeeps : ∀ id, group id = true →
      Keeps (budget (promises id) gain cost) (ends id) (first.process id) 0)
    (hpromised : ∀ entry ∈ history,
      promises entry.input.1 entry.output.1 entry.output.2) :
    ((history.filter (group ·.input.1)).map (cost ·.output)).sum ≤
      ((history.filter (group ·.input.1)).map (gain ·.output)).sum := by
  apply sum_le_sum_of_keys (·.input.1)
  intro id
  rw [filter_group]
  split
  · next hid =>
      obtain ⟨rest, -, hbalance⟩ :=
        balance_of_history promises gain cost h (hkeeps id hid) hpromised
      omega
  · rfl

theorem cost_eq_gain_of_history
    (h : History (interleaved perform) first history last)
    (hkeeps : ∀ id, Keeps (budget (promises id) gain cost)
      (fun rest _ => rest = 0) (first.process id) 0)
    (hdone : ∀ entry ∈ history,
      ∃ result, last.process entry.input.1 = .done result)
    (hpromised : ∀ entry ∈ history,
      promises entry.input.1 entry.output.1 entry.output.2) :
    (history.map (cost ·.output)).sum = (history.map (gain ·.output)).sum := by
  have hkeys : ∀ id,
      ((history.filter (·.input.1 = id)).map (cost ·.output)).sum =
        ((history.filter (·.input.1 = id)).map (gain ·.output)).sum := by
    intro id
    obtain ⟨rest, hrest, hbalance⟩ :=
      balance_of_history promises gain cost h (hkeeps id) hpromised
    cases hturns : history.filter (·.input.1 = id) with
    | nil => rfl
    | cons entry others =>
        have hentry : entry ∈ history.filter (·.input.1 = id) := by
          rw [hturns]
          exact List.mem_cons_self
        obtain ⟨hmem, hid⟩ := List.mem_filter.mp hentry
        obtain ⟨result, hresult⟩ := hdone entry hmem
        rw [of_decide_eq_true hid] at hresult
        rw [hresult] at hrest
        have hnothing : rest = 0 := hrest
        rw [hturns] at hbalance
        omega
  exact le_antisymm
    (sum_le_sum_of_keys (·.input.1) _ _ history fun id => (hkeys id).le)
    (sum_le_sum_of_keys (·.input.1) _ _ history fun id => (hkeys id).ge)

end Balance

end Interleaving

end RateLimitedGateway.Foundation
