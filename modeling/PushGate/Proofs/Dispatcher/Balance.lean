import PushGate.Proofs.Dispatcher.Stages
import PushGate.Proofs.Dispatcher.Visits
import PushGate.Proofs.Pool.Steady

/-!
# Balance under nested exchanges

Handlers may have further exchanges handled by the same dispatcher, and so on to any depth.  At
every moment the pool has lent one message for each message handler that is active then, and none
besides: an exchange holds a message only from the end of its body to the end of its handler, and a
message that turns out to be no message goes back before the rejection.

The pool is steady all the way (`Pool.Steady`), so it is full whenever nothing is lent.  One level
of nesting carries both to the next.

**Results.**
* `run_settled`: what a handler's action keeps.
* `serve_keepsBalance`: what one level of nesting keeps.
* `handle_keepsBalance`: an exchange keeps the balance, however deep its exchanges are nested.
-/

namespace PushGate

/-- The causes that are found before the body has been received, so that no message is lent. -/
def Rejection.isBeforeLoan : Rejection → Bool
  | .message _ => false
  | _ => true

/-- The counters at a visit agree with the message handlers that are active. -/
structure Visit.Balanced (v : Visit) : Prop where
  before : v.before.inUse = v.active
  /-- The handler that is entered is counted if it is given a message. -/
  entered : ∀ call ∈ v.record.calls, call.pool.inUse = v.active + call.occasion.held
  after : v.record.pool.inUse = v.before.inUse
  cancelled : v.record.answer = .cancelled → v.record.pool = v.before
  /-- What changes the counters then are the exchanges that the handler has handled. -/
  refused : ∀ call ∈ v.record.calls, ∀ e, call.occasion = .rejection e →
    e.isBeforeLoan = true →
      call.pool = v.before ∧ v.record.pool = statsAfter call.pool call.nested

/-- What comes of a handler's action leaves the pool steady and was balanced on the way. -/
structure Handled.Settled
    (capacity active : Nat)
    (start : Pool.Stats)
    (done : Handled) : Prop where
  steady : done.pool.Steady capacity active
  stats : done.pool.stats = statsAfter start done.nested
  visits : ∀ v, Visited active start done.nested v → v.Balanced
  answered : done.answer ≠ .cancelled

/-- What comes of an exchange leaves the pool steady and was balanced on the way. -/
structure Settled
    (capacity active : Nat)
    (start : Pool.Stats)
    (served : Record × Pool Message) : Prop where
  steady : served.2.Steady capacity active
  stats : served.1.pool = served.2.stats
  visits : ∀ v, Visited active start [served.1] v → v.Balanced

/-- A service that keeps the balance of the pools of a capacity. -/
def Service.KeepsBalance
    (capacity : Nat)
    (service : Service) : Prop :=
  ∀ (active : Nat) (pool : Pool Message) (x : Exchange),
    pool.Steady capacity active →
    Settled capacity active pool.stats (service pool x)

section Records

variable {active : Nat} {start : Pool.Stats} {record : Record} {records : List Record}

/-- The visits of a list are those of its first exchange alone and those of the rest. -/
theorem balanced_cons
    (hfirst : ∀ v, Visited active start [record] v → v.Balanced)
    (hlater : ∀ v, Visited active record.pool records v → v.Balanced) :
    ∀ v, Visited active start (record :: records) v → v.Balanced := by
  obtain ⟨hhere, hinside, -⟩ := forall_visited_cons_iff.1 hfirst
  exact forall_visited_cons_iff.2 ⟨hhere, hinside, hlater⟩

theorem balanced_singleton
    (hhere : Visit.Balanced ⟨active, start, record⟩)
    (hinside : ∀ call ∈ record.calls, ∀ v,
      Visited (active + call.occasion.held) call.pool call.nested v → v.Balanced) :
    ∀ v, Visited active start [record] v → v.Balanced :=
  forall_visited_cons_iff.2 ⟨hhere, hinside, forall_visited_nil⟩

/-- What has to be seen of an exchange for which one handler was called. -/
theorem balanced_of_call
    {call : Call Record}
    (hcalls : record.calls = [call])
    (hbefore : start.inUse = active)
    (hentered : call.pool.inUse = active + call.occasion.held)
    (hafter : record.pool.inUse = active)
    (hanswered : record.answer ≠ .cancelled)
    (hrefused : ∀ e, call.occasion = .rejection e → e.isBeforeLoan = true →
      call.pool = start ∧ record.pool = statsAfter call.pool call.nested)
    (hinside : ∀ v, Visited (active + call.occasion.held) call.pool call.nested v →
      v.Balanced) :
    ∀ v, Visited active start [record] v → v.Balanced := by
  refine balanced_singleton ⟨hbefore, ?_, hafter.trans hbefore.symm, ?_, ?_⟩ ?_
  · simpa only [hcalls, List.forall_mem_singleton] using hentered
  · exact fun hcancelled => absurd hcancelled hanswered
  · simpa only [hcalls, List.forall_mem_singleton] using hrefused
  · simpa only [hcalls, List.forall_mem_singleton] using hinside

end Records

/-- An action keeps the balance if the exchanges that it opens do. -/
theorem Action.run_settled
    {room capacity active : Nat}
    {service : room ≠ 0 → Service}
    (hservice : ∀ opens, (service opens).KeepsBalance capacity)
    (action : Action room)
    {pool : Pool Message}
    (hpool : pool.Steady capacity active) :
    (action.run service pool).Settled capacity active pool.stats := by
  -- The exchanges that an action opens follow one another, so each finds the pool as the one before
  -- has left it; what comes next depends on the answer.
  induction action generalizing pool with
  | reply r => exact ⟨hpool, rfl, forall_visited_nil, Answer.noConfusion⟩
  | panic cause => exact ⟨hpool, rfl, forall_visited_nil, Answer.noConfusion⟩
  | dispatch opens x next ih =>
      have hfirst := hservice opens active pool x hpool
      have hnext := ih (service opens pool x).1.answer hfirst.steady
      rw [run_dispatch]
      refine ⟨hnext.steady, ?_, ?_, hnext.answered⟩
      · rw [hnext.stats, ← hfirst.stats]
        rfl
      · rw [← hfirst.stats] at hnext
        exact balanced_cons hfirst.visits hnext.visits

namespace Dispatcher

section Level

variable (d : Dispatcher) {room capacity active : Nat} {service : room ≠ 0 → Service}
variable (hservice : ∀ opens, (service opens).KeepsBalance capacity)
variable {pool : Pool Message} {start : Pool.Stats} (head : Head) (log : List LogEntry)
include hservice

theorem reject_settled
    {e : Rejection}
    (hpool : pool.Steady capacity active)
    (hstart : start.inUse = active)
    (hloan : e.isBeforeLoan = true → pool.stats = start) :
    Settled capacity active start (d.reject room service pool head log e) := by
  have hdone :=
    (d.handlers.actOnRejection room head e).2.run_settled hservice hpool
  refine ⟨hdone.steady, rfl, balanced_of_call rfl hstart hpool.inUse_eq hdone.steady.inUse_eq
    hdone.answered ?_ hdone.visits⟩
  rintro e' ⟨⟩ hbefore
  exact ⟨hloan hbefore, hdone.stats⟩

theorem deliver_settled
    (hpool : pool.Steady capacity (active + 1))
    (hstart : start.inUse = active)
    (slot : Slot Message) :
    Settled capacity active start (d.deliver room service pool slot head log) := by
  have hdone :=
    (d.handlers.actOnMessage room head
      (Route.ofMessage slot.value) slot.value).2.run_settled hservice hpool
  -- The message is still lent while its handler runs, and goes back when the handler has ended.
  have hfinal := hdone.steady.release slot
  refine ⟨hfinal, rfl, balanced_of_call rfl hstart hpool.inUse_eq hfinal.inUse_eq
    hdone.answered ?_ hdone.visits⟩
  rintro e ⟨⟩

theorem accept_settled
    (hpool : pool.Steady capacity active)
    (body : Bytes) :
    Settled capacity active pool.stats (d.accept room service pool head log body) := by
  cases hfault : (Decoder.decode .blank body).fault with
  | some e =>
      rw [d.accept_of_fault hfault]
      exact d.reject_settled hservice head log (hpool.acquire.release _) hpool.inUse_eq
        (fun hbefore => absurd hbefore Bool.false_ne_true)
  | none =>
      rw [d.accept_of_message hfault]
      exact d.deliver_settled hservice head log hpool.acquire hpool.inUse_eq _

/-- One level of nesting: an exchange keeps the balance if those inside it do. -/
theorem serve_keepsBalance : (d.serve room service).KeepsBalance capacity := by
  intro active pool x hpool
  cases hadmitted : (authenticate d.token x.head.query).1 with
  | error e =>
      rw [d.serve_of_refused hadmitted]
      exact d.reject_settled hservice _ _ hpool hpool.inUse_eq (fun _ => rfl)
  | ok _ =>
      cases hbody : Intake.receive d.maxBodyBytes x.body with
      | pending =>
          rw [d.serve_of_stalled hadmitted hbody]
          exact ⟨hpool, rfl, balanced_singleton
            ⟨hpool.inUse_eq, List.forall_mem_nil _, rfl, fun _ => rfl, List.forall_mem_nil _⟩
            (List.forall_mem_nil _)⟩
      | failed cause =>
          rw [d.serve_of_broken hadmitted hbody]
          exact d.reject_settled hservice _ _ hpool hpool.inUse_eq (fun _ => rfl)
      | whole body =>
          rw [d.serve_of_whole hadmitted hbody]
          exact d.accept_settled hservice _ _ hpool body

end Level

/-- An exchange keeps the balance, however deep its exchanges are nested. -/
theorem handle_keepsBalance
    (d : Dispatcher)
    (room capacity : Nat) :
    (d.handle room).KeepsBalance capacity := by
  induction room with
  | zero =>
      rw [handle_zero]
      exact d.serve_keepsBalance fun opens => absurd rfl opens
  | succ room ih =>
      rw [handle_succ]
      exact d.serve_keepsBalance fun _ => ih

/-- A run of outermost exchanges from a pool that has lent nothing. -/
theorem handleAll_settled
    (d : Dispatcher)
    (room : Nat)
    {capacity : Nat}
    (xs : List Exchange)
    {pool : Pool Message}
    (hpool : pool.Steady capacity 0) :
    (d.handleAll room pool xs).2.Steady capacity 0 ∧
    (∀ record ∈ (d.handleAll room pool xs).1,
      record.pool.inUse = 0 ∧ record.pool.idle = capacity) ∧
    ∀ v, Visited 0 pool.stats (d.handleAll room pool xs).1 v → v.Balanced := by
  induction xs generalizing pool with
  | nil =>
      refine ⟨hpool, ?_, forall_visited_nil⟩
      intro record hrecord
      cases hrecord
  | cons x xs ih =>
      have hfirst := d.handle_keepsBalance room capacity 0 pool x hpool
      obtain ⟨hfinal, hlater, hvisits⟩ := ih hfirst.steady
      rw [← hfirst.stats] at hvisits
      refine ⟨hfinal, ?_, balanced_cons hfirst.visits hvisits⟩
      intro record hrecord
      rcases List.mem_cons.1 hrecord with rfl | hrecord
      · rw [hfirst.stats]
        exact ⟨hfirst.steady.inUse_eq, hfirst.steady.idle_eq⟩
      · exact hlater record hrecord

/-- **Balance.**  In every run of a dispatcher, at any depth, what the pool has lent is what the active
message handlers hold; an exchange that is refused or given up before its body has come leaves the
counters alone; and whenever an outermost exchange has ended, nothing is lent and the pool is
full. -/
theorem handleAll_balanced
    (d : Dispatcher)
    (room : Nat)
    (xs : List Exchange) :
    (∀ v, Visited 0 d.initialPool.stats (d.handleAll room d.initialPool xs).1 v →
      v.Balanced) ∧
    (∀ record ∈ (d.handleAll room d.initialPool xs).1,
      record.pool.inUse = 0 ∧ record.pool.idle = d.poolSize) ∧
    (d.handleAll room d.initialPool xs).2.stats.inUse = 0 ∧
    (d.handleAll room d.initialPool xs).2.stats.idle = d.poolSize := by
  obtain ⟨hfinal, houtermost, hvisits⟩ :=
    d.handleAll_settled room xs (Pool.steady_ofCapacity d.poolSize)
  exact ⟨hvisits, houtermost, hfinal.inUse_eq, hfinal.idle_eq⟩

end Dispatcher
end PushGate
